import Mathlib.Data.List.Forall2
import ScriptKit.Proofs.Text.Numeral
import ScriptKit.Proofs.Tree.Elsewhere
import ScriptKit.Proofs.Tree.Written

/-! What is written is read back. -/

namespace ScriptKit.Parser
open Written (Word Term Command sign)

/-- With steps enough, the parser takes one state to the other. -/
def Gives {α : Type} (p : Nat → ParseM α) (s : ParseState) (a : α) (s' : ParseState) : Prop :=
  ∃ least, ∀ n ≥ least, (p n).run s = .ok a s'

/-- The parser takes these words and stops before a token of a kind in `next`. -/
def Reads {α : Type} (p : Nat → ParseM α) (words : List Word) (next : TokenKind → Prop)
    (good : α → Prop) : Prop :=
  ∀ ts rest ast, ts.map Token.word = words → next (current rest).kind →
    ∃ a ast', Gives p ⟨ts ++ rest, ast⟩ a ⟨rest, ast'⟩ ∧ good a

def headKind (behind : TokenKind) : List Word → TokenKind
  | [] => behind
  | w :: _ => w.1

abbrev Anything (_ : TokenKind) : Prop := True

section Words

/-- What a term in parentheses or of a single word begins with. -/
def Opens (kind : TokenKind) : Prop :=
  kind ∈ [.integer, .text, .trueWord, .falseWord, .nullWord, .identifier, .leftParen]

theorem Opens.unsigned {kind : TokenKind} (opens : Opens kind) : unaryOp? kind = none := by
  simp only [Opens, List.mem_cons, List.not_mem_nil, or_false] at opens
  rcases opens with rfl | rfl | rfl | rfl | rfl | rfl | rfl <;> rfl

theorem enclose_cons (t : Term) :
    ∃ w ws, Written.enclose t.isClosed t.words = w :: ws ∧ Opens w.1 := by
  cases t with
  | boolean b => cases b <;> exact ⟨_, _, rfl, by simp [Opens, sign]⟩
  | _ => exact ⟨_, _, rfl, by simp [Opens, sign]⟩

/-- What a statement begins with, seen so that it is taken for an expression. -/
def LooksPlain (words : List Word) : Prop :=
  ∃ w v ws, words = w :: v :: ws ∧ Form.of w.1 v.1 = .expr

theorem looksPlain_cons {w : Word} {ws : List Word} (plain : ∀ kind, Form.of w.1 kind = .expr)
    (more : ws ≠ []) : LooksPlain (w :: ws) := by
  obtain ⟨v, vs, rfl⟩ := List.exists_cons_of_ne_nil more
  exact ⟨w, v, vs, rfl, plain v.1⟩

theorem looksPlain_enclose (t : Term) {w : Word} (ws : List Word) (other : w.1 ≠ .assign) :
    LooksPlain (Written.enclose t.isClosed t.words ++ w :: ws) := by
  cases t with
  | name x =>
    refine ⟨(.identifier, x), w, ws, rfl, ?_⟩
    generalize w.1 = kind at other
    cases kind <;> first | rfl | exact absurd rfl other
  | boolean b => cases b <;> exact looksPlain_cons (fun _ => rfl) (by simp)
  | _ => exact looksPlain_cons (fun _ => rfl) (by simp)

theorem looksPlain_words (t : Term) : LooksPlain (t.words ++ [sign .semicolon]) := by
  cases t with
  | name x => exact ⟨_, _, _, rfl, rfl⟩
  | boolean b => cases b <;> exact looksPlain_cons (fun _ => rfl) (by simp)
  | binary op a b =>
    simp only [Term.words, List.append_assoc, List.cons_append]
    exact looksPlain_enclose a _ (by cases op <;> decide)
  | unary op a =>
    simp only [Term.words, List.cons_append]
    exact looksPlain_cons (fun _ => by cases op <;> rfl) (by simp)
  | call f args =>
    simp only [Term.words, List.append_assoc, List.cons_append]
    exact looksPlain_enclose f _ (by decide)
  | index a i =>
    simp only [Term.words, List.append_assoc, List.cons_append]
    exact looksPlain_enclose a _ (by decide)
  | function xs body =>
    simp only [Term.words, Written.params, List.cons_append]
    exact ⟨_, _, _, rfl, rfl⟩
  | _ =>
    simp only [Term.words, List.cons_append]
    exact looksPlain_cons (fun _ => rfl) (by simp)

def Begins (kind : TokenKind) : Prop :=
  kind ≠ .semicolon ∧ kind ≠ .rightBrace ∧ kind ≠ .endOfInput

theorem Opens.begins {kind : TokenKind} (opens : Opens kind) : Begins kind := by
  simp only [Opens, List.mem_cons, List.not_mem_nil, or_false] at opens
  rcases opens with rfl | rfl | rfl | rfl | rfl | rfl | rfl <;> exact ⟨nofun, nofun, nofun⟩

theorem begins_enclose (t : Term) (kind : TokenKind) (ws : List Word) :
    Begins (headKind kind (Written.enclose t.isClosed t.words ++ ws)) := by
  obtain ⟨w, vs, whole, opens⟩ := enclose_cons t
  rw [whole]
  exact opens.begins

theorem begins_words (c : Command) (kind : TokenKind) (ws : List Word) :
    Begins (headKind kind (c.words ++ ws)) := by
  cases c with
  | expr t =>
    cases t with
    | boolean b => cases b <;> exact ⟨nofun, nofun, nofun⟩
    | unary op a => cases op <;> exact ⟨nofun, nofun, nofun⟩
    | binary | call | index =>
      simp only [Command.words, Term.words, List.append_assoc]
      exact begins_enclose ..
    | _ => exact ⟨nofun, nofun, nofun⟩
  | declare x e isConst => cases isConst <;> exact ⟨nofun, nofun, nofun⟩
  | _ => exact ⟨nofun, nofun, nofun⟩

end Words

section Combinators

variable {α β : Type} {p : Nat → ParseM α} {q : Nat → α → ParseM β} {ws vs : List Word} {w : Word}
  {next next' : TokenKind → Prop} {good good' : α → Prop} {fine : β → Prop}

theorem Gives.bind {s t u : ParseState} {a : α} {b : β} (first : Gives p s a t)
    (second : Gives (fun n => q n a) t b u) : Gives (fun n => p n >>= q n) s b u := by
  obtain ⟨k, first⟩ := first
  obtain ⟨l, second⟩ := second
  refine ⟨max k l, fun n le => ?_⟩
  exact bind_eq_ok.mpr ⟨a, t, first n (by omega), second n (by omega)⟩

theorem current_append (ts rest : List Token) :
    (current (ts ++ rest)).kind = headKind (current rest).kind (ts.map Token.word) := by
  cases ts <;> rfl

theorem Reads.bind (first : Reads p ws next good)
    (second : ∀ a, good a → Reads (fun n => q n a) vs next' fine)
    (meet : ∀ kind, next' kind → next (headKind kind vs)) :
    Reads (fun n => p n >>= q n) (ws ++ vs) next' fine := by
  intro ts rest ast spelled follows
  obtain ⟨ts, us, rfl, rfl, rfl⟩ := List.map_eq_append_iff.mp spelled
  obtain ⟨a, ast', given, found⟩ := first ts (us ++ rest) ast rfl
    (by rw [current_append]; exact meet _ follows)
  obtain ⟨b, ast'', given', found'⟩ := second a found us rest ast' rfl follows
  exact ⟨b, ast'', by rw [List.append_assoc]; exact given.bind given', found'⟩

theorem Reads.andThen (first : Reads p ws next good)
    (second : ∀ a, good a → Reads (fun n => q n a) [] next' fine)
    (fewer : ∀ kind, next' kind → next kind) : Reads (fun n => p n >>= q n) ws next' fine :=
  List.append_nil ws ▸ first.bind second fewer

/-- The first step was to begin. -/
theorem Reads.of_succ (reads : Reads (fun n => p (n + 1)) ws next good) : Reads p ws next good := by
  intro ts rest ast spelled follows
  obtain ⟨a, ast', ⟨least, given⟩, found⟩ := reads ts rest ast spelled follows
  refine ⟨a, ast', ⟨least + 1, fun n le => ?_⟩, found⟩
  obtain ⟨n, rfl⟩ : ∃ k, n = k + 1 := ⟨n - 1, by omega⟩
  exact given n (by omega)

theorem Reads.before (reads : Reads p ws next good) (fewer : ∀ kind, next' kind → next kind) :
    Reads p ws next' good :=
  fun ts rest ast spelled follows => reads ts rest ast spelled (fewer _ follows)

theorem Reads.imp (reads : Reads p ws next good) (weaker : ∀ a, good a → good' a) :
    Reads p ws next good' := by
  intro ts rest ast spelled follows
  obtain ⟨a, ast', given, found⟩ := reads ts rest ast spelled follows
  exact ⟨a, ast', given, weaker a found⟩

theorem reads_pure {a : α} (found : good a) : Reads (fun _ => pure a) [] next good := by
  intro ts rest ast spelled follows
  cases List.map_eq_nil_iff.mp spelled
  exact ⟨a, ast, ⟨0, fun n _ => rfl⟩, found⟩

theorem reads_peek {k : Nat → Token → ParseM α}
    (reads : ∀ t, t.word = w → Reads (fun n => k n t) (w :: ws) next good) :
    Reads (fun n => peek >>= k n) (w :: ws) next good := by
  intro ts rest ast spelled follows
  obtain ⟨t, us, rfl, isFirst, -⟩ := List.map_eq_cons_iff.mp spelled
  exact reads t isFirst (t :: us) rest ast spelled follows

theorem reads_peek_kind {k : Nat → Token → ParseM α} (fits : TokenKind → Prop)
    (here : ∀ behind, next behind → fits (headKind behind ws))
    (reads : ∀ t, fits t.kind → Reads (fun n => k n t) ws next good) :
    Reads (fun n => peek >>= k n) ws next good := by
  intro ts rest ast spelled follows
  refine reads (current (ts ++ rest)) ?_ ts rest ast spelled follows
  rw [current_append, spelled]
  exact here _ follows

theorem reads_peek_any {k : Nat → Token → ParseM α}
    (reads : ∀ t, Reads (fun n => k n t) ws next good) :
    Reads (fun n => peek >>= k n) ws next good :=
  reads_peek_kind Anything (fun _ _ => trivial) fun t _ => reads t

theorem reads_peekSecond {k : Nat → TokenKind → ParseM α} {v : Word}
    (reads : Reads (fun n => k n v.1) (w :: v :: ws) next good) :
    Reads (fun n => peekSecond >>= k n) (w :: v :: ws) next good := by
  intro ts rest ast spelled follows
  obtain ⟨t, us, rfl, -, others⟩ := List.map_eq_cons_iff.mp spelled
  obtain ⟨u, us, rfl, rfl, -⟩ := List.map_eq_cons_iff.mp others
  exact reads (t :: u :: us) rest ast spelled follows

theorem reads_advance {k : Nat → Token → ParseM α} (more : w.1 ≠ .endOfInput)
    (reads : ∀ t, t.word = w → Reads (fun n => k n t) ws next good) :
    Reads (fun n => advance >>= k n) (w :: ws) next good := by
  intro ts rest ast spelled follows
  obtain ⟨t, us, rfl, rfl, others⟩ := List.map_eq_cons_iff.mp spelled
  obtain ⟨a, ast', ⟨least, given⟩, found⟩ := reads t rfl us rest ast others follows
  refine ⟨a, ast', ⟨least, fun n le => ?_⟩, found⟩
  exact bind_eq_ok.mpr ⟨t, _, run_advance more (us ++ rest) ast, given n le⟩

theorem reads_expect {k : Nat → Token → ParseM α} {expected text : String} {kind : TokenKind}
    (more : kind ≠ .endOfInput)
    (reads : ∀ t, t.word = (kind, text) → Reads (fun n => k n t) ws next good) :
    Reads (fun n => expect kind expected >>= k n) ((kind, text) :: ws) next good := by
  unfold expect
  simp only [bind_assoc]
  refine reads_peek fun t shown => ?_
  simp only [if_pos (show t.kind = kind from congrArg Prod.fst shown)]
  exact reads_advance more reads

theorem reads_eat {k : Nat → Bool → ParseM α} {text : String} {kind : TokenKind}
    (more : kind ≠ .endOfInput) (reads : Reads (fun n => k n true) ws next good) :
    Reads (fun n => eat kind >>= k n) ((kind, text) :: ws) next good := by
  unfold eat
  simp only [bind_assoc]
  refine reads_peek fun t shown => ?_
  simp only [if_pos (show t.kind = kind from congrArg Prod.fst shown), bind_assoc, pure_bind]
  exact reads_advance more fun _ _ => reads

/-- Another kind is not taken. -/
theorem reads_eat_other {k : Nat → Bool → ParseM α} {kind : TokenKind}
    (other : ∀ behind, next behind → headKind behind ws ≠ kind)
    (reads : Reads (fun n => k n false) ws next good) :
    Reads (fun n => eat kind >>= k n) ws next good := by
  intro ts rest ast spelled follows
  have here : (current (ts ++ rest)).kind ≠ kind := by
    rw [current_append, spelled]
    exact other _ follows
  obtain ⟨a, ast', ⟨least, given⟩, found⟩ := reads ts rest ast spelled follows
  refine ⟨a, ast', ⟨least, fun n le => ?_⟩, found⟩
  simp only [eat, bind_assoc, run_peek, if_neg here, pure_bind]
  exact given n le

theorem reads_newExpr {span : Span} {make : Node → Expr} {good : Expr → Prop}
    (found : ∀ node, good (make node)) : Reads (fun _ => newExpr span make) [] next good := by
  intro ts rest ast spelled follows
  cases List.map_eq_nil_iff.mp spelled
  exact ⟨_, _, ⟨0, fun n _ => rfl⟩, found _⟩

/-- A new expression, and what is done with it. -/
theorem reads_newExpr_bind {span : Span} {make : Node → Expr} {k : Nat → Expr → ParseM α}
    (reads : ∀ node, Reads (fun n => k n (make node)) ws next good) :
    Reads (fun n => newExpr span make >>= k n) ws next good := by
  intro ts rest ast spelled follows
  obtain ⟨a, ast', ⟨least, given⟩, found⟩ := reads _ ts rest _ spelled follows
  exact ⟨a, ast', ⟨least, fun n le => bind_eq_ok.mpr ⟨_, _, rfl, given n le⟩⟩, found⟩

theorem reads_newFunc_bind {span : Span} {name : Option String} {params : List String} {body : Body}
    {k : Nat → Func → ParseM α}
    (reads : ∀ node, Reads (fun n => k n (.mk node name params body)) ws next good) :
    Reads (fun n => newFunc span name params body >>= k n) ws next good := by
  intro ts rest ast spelled follows
  obtain ⟨a, ast', ⟨least, given⟩, found⟩ := reads _ ts rest _ spelled follows
  exact ⟨a, ast', ⟨least, fun n le => bind_eq_ok.mpr ⟨_, _, rfl, given n le⟩⟩, found⟩

theorem reads_newBlock {span : Span} {ss : List Stmt} {good : Block → Prop}
    (found : ∀ node, good (.mk node ss)) : Reads (fun _ => newBlock span ss) [] next good := by
  intro ts rest ast spelled follows
  cases List.map_eq_nil_iff.mp spelled
  exact ⟨_, _, ⟨0, fun n _ => rfl⟩, found _⟩

theorem reads_newStmt {make : Nat → Stmt} {good : Stmt → Prop} (found : ∀ id, good (make id)) :
    Reads (fun _ => newStmt make) [] next good := by
  intro ts rest ast spelled follows
  cases List.map_eq_nil_iff.mp spelled
  exact ⟨_, _, ⟨0, fun n _ => rfl⟩, found _⟩

end Combinators

theorem reads_names (x : String) (xs : List String) :
    Reads params (Written.names (x :: xs) ++ [sign .rightParen]) Anything (· = x :: xs) := by
  induction xs generalizing x with
  | nil =>
    refine Reads.of_succ (reads_expect (by decide) fun t shown => ?_)
    refine reads_eat (by decide) ?_
    exact reads_pure (congrArg (fun w => [w.2]) shown)
  | cons y ys ih =>
    refine Reads.of_succ (reads_expect (by decide) fun t shown => ?_)
    refine reads_eat_other (fun _ _ => nofun) ?_
    refine reads_expect (by decide) fun _ _ => ?_
    refine (ih y).andThen ?_ fun _ _ => trivial
    rintro xs rfl
    exact reads_pure (congrArg (fun w => w.2 :: y :: ys) shown)

theorem reads_params (xs : List String) :
    Reads paramList (Written.params xs) Anything (· = xs) := by
  refine reads_expect (by decide) fun _ _ => ?_
  cases xs with
  | nil => exact reads_eat (by decide) (reads_pure rfl)
  | cons x xs =>
    refine reads_eat_other ?_ (reads_names x xs)
    cases xs <;> exact fun _ _ => nofun

section Expressions

variable {ws vs : List Word} {good : Expr → Prop} {level : Level}

def Plain (kind : TokenKind) : Prop := kind ≠ .leftParen ∧ kind ≠ .leftBracket

def Stops (kind : TokenKind) : Prop :=
  kind = .rightParen ∨ kind = .rightBracket ∨ kind = .comma ∨ kind = .semicolon

theorem Stops.plain {kind : TokenKind} (stops : Stops kind) : Plain kind := by
  rcases stops with rfl | rfl | rfl | rfl <;> exact ⟨by decide, by decide⟩

theorem Stops.operator?_eq {kind : TokenKind} (stops : Stops kind) (level : Level) :
    level.operator? kind = none := by
  rcases stops with rfl | rfl | rfl | rfl <;> cases level <;> rfl

theorem reads_trailers_none {head : Expr} (found : good head) :
    Reads (fun n => trailers n head) [] Plain good :=
  Reads.of_succ (reads_eat_other (fun _ plain => plain.1)
    (reads_eat_other (fun _ plain => plain.2) (reads_pure found)))

theorem reads_unary {w : Word} {next : TokenKind → Prop} (unsigned : unaryOp? w.1 = none)
    (reads : Reads primary (w :: ws) next good) :
    Reads unary (w :: ws) (fun kind => next kind ∧ Plain kind) good := by
  refine Reads.of_succ (reads_peek fun t shown => ?_)
  rw [show unaryOp? t.kind =
    none from (congrArg (fun w : Word => unaryOp? w.1) shown).trans unsigned]
  exact reads.andThen (fun _ found => (reads_trailers_none found).before fun _ stops => stops.2)
    fun _ stops => stops.1

theorem reads_operationRest_none {lhs : Expr} (found : good lhs) :
    Reads (fun n => operationRest n level lhs) [] (fun kind => level.operator? kind = none)
      good := by
  refine Reads.of_succ ?_
  intro ts rest ast spelled none
  cases List.map_eq_nil_iff.mp spelled
  refine ⟨lhs, ast, ⟨0, fun n _ => ?_⟩, found⟩
  simp only [operationRest, List.nil_append, run_peek, none]
  rfl

theorem reads_operation {next : TokenKind → Prop}
    (reads : Reads (fun n => operand n level) ws next good) :
    Reads (fun n => operation n level) ws
      (fun kind => next kind ∧ level.operator? kind = none) good :=
  Reads.of_succ (reads.andThen
    (fun _ found => (reads_operationRest_none found).before fun _ stops => stops.2)
    fun _ stops => stops.1)

theorem reads_looser {inner : Level} (tighter : level.tighter? = some inner)
    {next : TokenKind → Prop} (reads : Reads (fun n => operation n inner) ws next good) :
    Reads (fun n => operand n level) ws next good := by
  refine Reads.of_succ ?_
  simpa only [operand, tighter] using reads

/-- An operand, in front of an operator of its level or a looser one. -/
theorem reads_operand {next : TokenKind → Prop} (reads : Reads unary ws next good) (level : Level) :
    Reads (fun n => operand n level) ws
      (fun kind => next kind ∧ ∀ l : Level, l.height < level.height → l.operator? kind = none)
        good := by
  have up : ∀ {level inner : Level}, level.tighter? = some inner → level.height = inner.height + 1 →
      Reads (fun n => operand n inner) ws
        (fun kind => next kind ∧ ∀ l : Level, l.height < inner.height → l.operator? kind = none)
          good →
      Reads (fun n => operand n level) ws
        (fun kind => next kind ∧ ∀ l : Level, l.height < level.height → l.operator? kind = none)
          good := by
    intro level inner tighter height reads
    refine (reads_looser tighter (reads_operation reads)).before fun kind stops => ?_
    exact ⟨⟨stops.1, fun l lower => stops.2 l (by omega)⟩, stops.2 inner (by omega)⟩
  have multiplicative : Reads (fun n => operand n .multiplicative) ws (fun kind => next kind ∧
      ∀ l : Level, l.height < Level.height .multiplicative → l.operator? kind = none) good :=
    Reads.of_succ (reads.before fun _ stops => stops.1)
  cases level with
  | multiplicative => exact multiplicative
  | additive => exact up rfl rfl multiplicative
  | comparison => exact up rfl rfl (up rfl rfl multiplicative)
  | equality => exact up rfl rfl (up rfl rfl (up rfl rfl multiplicative))

/-- Up to the loosest level, where an expression ends. -/
theorem reads_climb (level : Level) (reads : Reads (fun n => operation n level) ws Stops good) :
    Reads (fun n => operation n .equality) ws Stops good := by
  have up : ∀ {level inner : Level}, level.tighter? = some inner →
      Reads (fun n => operation n inner) ws Stops good →
      Reads (fun n => operation n level) ws Stops good :=
    fun {level _} tighter reads => (reads_operation (reads_looser tighter reads)).before
      fun _ stops => ⟨stops, stops.operator?_eq level⟩
  cases level with
  | equality => exact reads
  | comparison => exact up rfl reads
  | additive => exact up rfl (up rfl reads)
  | multiplicative => exact up rfl (up rfl (up rfl reads))

theorem reads_of_unary {next : TokenKind → Prop} (reads : Reads unary ws next good)
    (ends : ∀ kind, Stops kind → next kind) :
    Reads (fun n => operation n .equality) ws Stops good :=
  (reads_operation (reads_operand reads .equality)).before fun kind stops =>
    ⟨⟨ends kind stops, fun l _ => stops.operator?_eq l⟩, stops.operator?_eq _⟩

theorem reads_of_primary {w : Word} {next : TokenKind → Prop} (unsigned : unaryOp? w.1 = none)
    (reads : Reads primary (w :: ws) next good) (ends : ∀ kind, Stops kind → next kind) :
    Reads (fun n => operation n .equality) (w :: ws) Stops good :=
  reads_of_unary (reads_unary unsigned reads) fun kind stops => ⟨ends kind stops, stops.plain⟩

def levelOf : BinaryOp → Level
  | .mul | .div | .mod => .multiplicative
  | .add | .sub => .additive
  | .lt | .le | .gt | .ge => .comparison
  | .eq | .ne => .equality

theorem operator?_operator (op : BinaryOp) :
    (levelOf op).operator? (Written.operator op) = some op := by
  cases op <;> rfl

theorem operator?_tighter (op : BinaryOp) (level : Level)
    (tighter : level.height < (levelOf op).height) :
    level.operator? (Written.operator op) = none := by
  cases op <;> cases level <;> first | rfl | exact absurd tighter (by decide)

theorem plain_operator (op : BinaryOp) : Plain (Written.operator op) := by
  cases op <;> exact ⟨by decide, by decide⟩

theorem reads_binary {left right : Expr → Prop} (op : BinaryOp) (lhs : Reads unary ws Plain left)
    (rhs : Reads unary vs Plain right)
    (made : ∀ node a b, left a → right b → good (.binary node op a b)) :
    Reads (fun n => operation n .equality) (ws ++ sign (Written.operator op) :: vs) Stops good := by
  refine reads_climb (levelOf op) (Reads.of_succ ?_)
  refine (reads_operand lhs (levelOf op)).bind (fun a isLeft => Reads.of_succ ?_) ?_
  · refine reads_peek fun t shown => ?_
    have kind : t.kind = Written.operator op := congrArg Prod.fst shown
    rw [kind, operator?_operator]
    refine reads_advance ?_ fun _ _ => ?_
    · exact Operator.ne_end (Level.operator_of (operator?_operator op))
    refine (reads_operand rhs (levelOf op)).andThen (fun b isRight => ?_) ?_
    · refine reads_newExpr_bind fun node => ?_
      have found := made node a b isLeft isRight
      exact (reads_operationRest_none found).before fun _ stops => stops.operator?_eq _
    · exact fun _ stops => ⟨stops.plain, fun l _ => stops.operator?_eq l⟩
  · exact fun _ _ => ⟨plain_operator op, operator?_tighter op⟩

theorem reads_sign (op : UnaryOp) {inner : Expr → Prop} (reads : Reads unary ws Plain inner)
    (made : ∀ node a, inner a → good (.unary node op a)) :
    Reads unary (sign (Written.unaryOperator op) :: ws) Plain good := by
  refine Reads.of_succ (reads_peek fun t shown => ?_)
  have kind : unaryOp? t.kind = some op := by
    rw [show t.kind = Written.unaryOperator op from congrArg Prod.fst shown]
    cases op <;> rfl
  rw [kind]
  refine reads_advance (by cases op <;> decide) fun _ _ => ?_
  exact reads.andThen (fun a found => reads_newExpr fun node => made node a found)
    fun _ stops => stops

/-- What stands in parentheses ends there. -/
theorem reads_group (reads : Reads (fun n => operation n .equality) ws Stops good) :
    Reads primary (sign .leftParen :: ws ++ [sign .rightParen]) Anything good := by
  refine Reads.of_succ (reads_peek fun t shown => ?_)
  have kind : t.kind = .leftParen := congrArg Prod.fst shown
  simp only [literal?, kind]
  refine reads_advance (by decide) fun _ _ => ?_
  refine reads.bind (fun e found => ?_) fun _ _ => .inl rfl
  exact reads_expect (by decide) fun _ _ => reads_pure found

theorem reads_literal {w : Word} {v : Literal}
    (found : ∀ t : Token, t.word = w → literal? t = some v)
    (made : ∀ node, good (.literal node v)) : Reads primary [w] Anything good := by
  refine Reads.of_succ (reads_peek fun t shown => ?_)
  have value := found t shown
  rw [value]
  refine reads_advance ?_ fun _ _ => reads_newExpr made
  rw [← shown]
  exact (constant_of_literal? value).2

theorem reads_integer (k : Nat) (small : k < 9223372036854775808)
    (made : ∀ node, good (.literal node (.integer (Int64.ofNat k)))) :
    Reads primary [(.integer, String.ofList (Nat.toDigits 10 k))] Anything good := by
  refine Reads.of_succ (reads_peek fun t shown => ?_)
  have kind : t.kind = .integer := congrArg Prod.fst shown
  have value : int64? t.text.toList = some (Int64.ofNat k) := by
    have held : (Int64.ofNat k).toInt = k := Int64.toInt_ofNat_of_lt small
    rw [show t.text = _ from congrArg Prod.snd shown, String.toList_ofList, int64?,
      Text.readInt?_toDigits]
    exact if_pos held
  simp only [literal?, kind, value]
  exact reads_advance nofun fun _ _ => reads_newExpr made

theorem reads_name (x : String) (made : ∀ node, good (.name node x)) :
    Reads primary [(.identifier, x)] Anything good := by
  refine Reads.of_succ (reads_peek fun t shown => ?_)
  have kind : t.kind = .identifier := congrArg Prod.fst shown
  simp only [literal?, kind]
  refine reads_advance nofun fun _ _ => reads_newExpr fun node => ?_
  rw [show t.text = x from congrArg Prod.snd shown]
  exact made node

theorem reads_lambda (xs : List String) {inner : Expr → Prop}
    (reads : Reads (fun n => operation n .equality) ws Stops inner)
    (made : ∀ node inside e, inner e → good (.function node (.mk inside none xs (.expr e)))) :
    Reads primary (sign .fnWord :: Written.params xs ++ sign .arrow :: ws) Stops good := by
  refine Reads.of_succ (reads_peek fun t shown => ?_)
  have kind : t.kind = .fnWord := congrArg Prod.fst shown
  simp only [literal?, kind]
  refine reads_advance nofun fun _ _ => ?_
  refine (reads_params xs).bind ?_ fun _ _ => trivial
  intro ys same
  rw [same]
  refine reads_expect (by decide) fun _ _ => ?_
  refine reads.andThen (fun e found => ?_) fun _ stops => stops
  exact reads_newFunc_bind fun inside => reads_newExpr fun node => made node inside e found

theorem reads_function (xs : List String) {inner : Block → Prop}
    (reads : Reads block ws Anything inner)
    (made : ∀ node inside b, inner b → good (.function node (.mk inside none xs (.block b)))) :
    Reads primary (sign .functionWord :: Written.params xs ++ ws) Anything good := by
  refine Reads.of_succ (reads_peek fun t shown => ?_)
  have kind : t.kind = .functionWord := congrArg Prod.fst shown
  simp only [literal?, kind]
  refine reads_advance nofun fun _ _ => ?_
  refine (reads_params xs).bind ?_ fun _ _ => trivial
  intro ys same
  rw [same]
  refine reads.andThen (fun b found => ?_) fun _ stops => stops
  exact reads_newFunc_bind fun inside => reads_newExpr fun node => made node inside b found

theorem reads_trailed {w : Word} {inner : Expr → Prop} (unsigned : unaryOp? w.1 = none)
    (reads : Reads primary (w :: ws) Anything inner)
    (rest : ∀ head, inner head → Reads (fun n => trailers n head) vs Plain good) :
    Reads unary (w :: ws ++ vs) Plain good := by
  refine Reads.of_succ (reads_peek fun t shown => ?_)
  rw [show unaryOp? t.kind =
    none from (congrArg (fun w : Word => unaryOp? w.1) shown).trans unsigned]
  exact reads.bind rest fun _ _ => trivial

/-- A call, and the trailers behind it. -/
theorem reads_call_then {us : List Word} {head : Expr} {listed : List Expr × Span → Prop}
    (reads : Reads (fun n => items n .rightParen ")") vs Anything listed)
    (rest : ∀ node r, listed r → Reads (fun n => trailers n (.call node head r.1)) us Plain good) :
    Reads (fun n => trailers n head) (sign .leftParen :: vs ++ us) Plain good := by
  refine Reads.of_succ (reads_eat (by decide) ?_)
  refine reads.bind (fun r found => ?_) fun _ _ => trivial
  exact reads_newExpr_bind fun node => rest node r found

theorem reads_call {head : Expr} {listed : List Expr × Span → Prop}
    (reads : Reads (fun n => items n .rightParen ")") vs Anything listed)
    (made : ∀ node r, listed r → good (.call node head r.1)) :
    Reads (fun n => trailers n head) (sign .leftParen :: vs) Plain good :=
  List.append_nil (sign .leftParen :: vs) ▸
    reads_call_then reads fun node r found => reads_trailers_none (made node r found)

/-- A subscript, and the trailers behind it. -/
theorem reads_index_then {us : List Word} {head : Expr} {inner : Expr → Prop}
    (reads : Reads (fun n => operation n .equality) vs Stops inner)
    (rest : ∀ node key, inner key →
      Reads (fun n => trailers n (.index node head key)) us Plain good) :
    Reads (fun n => trailers n head) (sign .leftBracket :: vs ++ sign .rightBracket :: us) Plain
      good := by
  refine Reads.of_succ (reads_eat_other (fun _ _ => nofun) (reads_eat (by decide) ?_))
  refine reads.bind (fun key found => ?_) fun _ _ => .inr (.inl rfl)
  refine reads_expect (by decide) fun _ _ => ?_
  exact reads_newExpr_bind fun node => rest node key found

theorem reads_index {head : Expr} {inner : Expr → Prop}
    (reads : Reads (fun n => operation n .equality) vs Stops inner)
    (made : ∀ node key, inner key → good (.index node head key)) :
    Reads (fun n => trailers n head) (sign .leftBracket :: vs ++ [sign .rightBracket]) Plain good :=
  reads_index_then reads fun node key found => reads_trailers_none (made node key found)

theorem reads_array {listed : List Expr × Span → Prop}
    (reads : Reads (fun n => items n .rightBracket "]") vs Anything listed)
    (made : ∀ node r, listed r → good (.array node r.1)) :
    Reads primary (sign .leftBracket :: vs) Anything good := by
  refine Reads.of_succ (reads_peek fun t shown => ?_)
  have kind : t.kind = .leftBracket := congrArg Prod.fst shown
  simp only [literal?, kind]
  refine reads_advance nofun fun _ _ => ?_
  exact reads.andThen (fun r found => reads_newExpr fun node => made node r found) fun _ _ =>
    trivial

/-- Expressions with commas between them, none of which looks like the end. -/
theorem reads_commas {α : Type} {closing : TokenKind} (stops : Stops closing)
    (apart : closing ≠ .comma) (more : closing ≠ .endOfInput) (expected : String)
    {words : α → List Word} {fits : α → Expr → Prop} (ts : List α)
    (each : ∀ t ∈ ts, Reads (fun n => operation n .equality) (words t) Stops (fits t))
    (begins : ∀ t ∈ ts, ∃ w ws, words t = w :: ws ∧ w.1 ≠ closing) :
    Reads (fun n => items n closing expected)
      ([sign .comma].intercalate (ts.map words) ++ [sign closing]) Anything
      fun r => List.Forall₂ fits ts r.1 := by
  induction ts with
  | nil => exact Reads.of_succ (reads_peek_any fun t => reads_eat more (reads_pure .nil))
  | cons t ts ih =>
    obtain ⟨item, others⟩ := List.forall_mem_cons.mp each
    obtain ⟨⟨w, ws, whole, different⟩, begins⟩ := List.forall_mem_cons.mp begins
    have rest := ih others begins
    have inside : ∀ vs kind, headKind kind (words t ++ vs) ≠ closing := by
      intro vs kind
      rw [whole]
      exact different
    refine Reads.of_succ (reads_peek_any fun _ => ?_)
    cases ts with
    | nil =>
      rw [List.map_singleton, List.intercalate_singleton]
      refine reads_eat_other (fun _ _ => inside _ _)
        (item.bind (fun e found => ?_) fun _ _ => stops)
      exact reads_peek_any fun _ => reads_eat more (reads_pure (.cons found .nil))
    | cons u us =>
      rw [List.map_cons, List.map_cons, List.intercalate_cons_cons, List.append_assoc,
        List.append_assoc]
      refine reads_eat_other (fun _ _ => inside _ _) (item.bind (fun e found => ?_) fun _ _ => ?_)
      · refine reads_peek_any fun _ =>
          reads_eat_other (fun _ _ => apart.symm) (reads_eat (by decide) ?_)
        exact rest.andThen (fun r others => reads_pure (.cons found others)) fun _ _ => trivial
      · exact .inr (.inr (.inl rfl))

theorem map_move_eq {α : Type} {tree : α → Expr} {ts : List α} {es : List Expr}
    (each : List.Forall₂ (fun t e => e.move .nowhere = tree t) ts es) :
    es.map (Expr.move .nowhere) = ts.map tree := by
  induction each with
  | nil => rfl
  | cons first _ ih => rw [List.map_cons, List.map_cons, first, ih]

end Expressions

structure Readable (t : Term) : Prop where
  bare : Reads (fun n => operation n .equality) t.words Stops fun e => e.move .nowhere = t.tree
  closed : Reads primary (Written.enclose t.isClosed t.words) Anything fun e =>
      e.move .nowhere = t.tree

section Terms

variable {t u : Term}

theorem Opens.ne_stop {kind : TokenKind} (opens : Opens kind) {closing : TokenKind}
    (stops : Stops closing) : kind ≠ closing := by
  rintro rfl
  rcases stops with rfl | rfl | rfl | rfl <;> simp [Opens] at opens

theorem Readable.unary (readable : Readable t) :
    Reads unary (Written.enclose t.isClosed t.words) Plain fun e => e.move .nowhere = t.tree := by
  obtain ⟨w, ws, whole, opens⟩ := enclose_cons t
  have closed := readable.closed
  rw [whole] at closed ⊢
  exact (reads_unary opens.unsigned closed).before fun _ plain => ⟨trivial, plain⟩

/-- A term that is not closed is read in parentheses as it is read bare. -/
theorem Readable.of_bare (isOpen : t.isClosed = false)
    (bare : Reads (fun n => operation n .equality) t.words Stops fun e =>
      e.move .nowhere = t.tree) :
    Readable t := by
  refine ⟨bare, ?_⟩
  rw [isOpen]
  exact reads_group bare

theorem Readable.of_closed {w : Word} {ws : List Word} (isClosed : t.isClosed = true)
    (whole : t.words = w :: ws) (unsigned : unaryOp? w.1 = none)
    (closed : Reads primary t.words Anything fun e => e.move .nowhere = t.tree) : Readable t := by
  refine ⟨?_, by rw [isClosed]; exact closed⟩
  rw [whole] at closed ⊢
  exact reads_of_primary unsigned closed fun _ _ => trivial

theorem readable_literal {w : Word} {v : Literal} (isClosed : t.isClosed = true)
    (whole : t.words = [w]) (unsigned : unaryOp? w.1 = none)
    (found : ∀ u : Token, u.word = w → literal? u = some v)
    (tree : t.tree = .literal Written.node v) : Readable t := by
  refine .of_closed isClosed whole unsigned ?_
  rw [whole]
  exact reads_literal found fun _ => tree.symm

theorem listed_eq_intercalate (ts : List Term) :
    Term.listed ts = [sign .comma].intercalate
      (ts.map fun t => Written.enclose t.isClosed t.words) := by
  induction ts with
  | nil => rfl
  | cons t ts ih =>
    cases ts with
    | nil => rw [Term.listed, List.map_singleton, List.intercalate_singleton]
    | cons u us =>
      simp only [List.map_cons] at ih ⊢
      rw [Term.listed, ih, List.intercalate_cons_cons, List.append_assoc, List.singleton_append]

theorem trees_eq_map (ts : List Term) : Term.trees ts = ts.map Term.tree := by
  induction ts with
  | nil => rfl
  | cons t ts ih => rw [Term.trees, ih, List.map_cons]

theorem reads_items {closing : TokenKind} (stops : Stops closing) (apart : closing ≠ .comma)
    (more : closing ≠ .endOfInput) (expected : String) (ts : List Term)
    (each : ∀ t ∈ ts, Readable t) :
    Reads (fun n => items n closing expected) (Term.listed ts ++ [sign closing]) Anything
      fun r => r.1.map (Expr.move .nowhere) = Term.trees ts := by
  rw [listed_eq_intercalate, trees_eq_map]
  refine (reads_commas stops apart more expected ts (fun t member => ?_) fun t member => ?_).imp
    fun _ => map_move_eq
  · exact reads_of_unary (each t member).unary fun _ stops => stops.plain
  · obtain ⟨w, ws, whole, opens⟩ := enclose_cons t
    exact ⟨w, ws, whole, opens.ne_stop stops⟩

theorem readable_binary (op : BinaryOp) (left : Readable t) (right : Readable u) :
    Readable (.binary op t u) := by
  refine .of_bare rfl ?_
  simp only [Term.words]
  refine reads_binary op left.unary right.unary fun node a b isLeft isRight => ?_
  simp only [Expr.move, isLeft, isRight]
  rfl

theorem readable_unary (op : UnaryOp) (operand : Readable t) : Readable (.unary op t) := by
  refine .of_bare rfl ?_
  simp only [Term.words]
  refine reads_of_unary (reads_sign op operand.unary fun node a found => ?_) fun _ stops =>
    stops.plain
  simp only [Expr.move, found]
  rfl

theorem readable_call {args : List Term} (callee : Readable t) (each : ∀ u ∈ args, Readable u) :
    Readable (.call t args) := by
  refine .of_bare rfl ?_
  have listed := reads_items (.inl rfl) (by decide) (by decide) ")" args each
  have closed := callee.closed
  simp only [Term.words]
  obtain ⟨w, ws, whole, opens⟩ := enclose_cons t
  rw [whole] at closed ⊢
  rw [List.append_assoc]
  refine reads_of_unary (reads_trailed opens.unsigned closed fun head found => ?_) fun _ stops =>
    stops.plain
  refine reads_call listed fun node es others => ?_
  simp only [Expr.move, Expr.moveAll_eq_map, found, others]
  rfl

theorem readable_array {items : List Term} (each : ∀ u ∈ items, Readable u) :
    Readable (.array items) := by
  refine .of_bare rfl ?_
  have listed := reads_items (.inr (.inl rfl)) (by decide) (by decide) "]" items each
  simp only [Term.words, List.cons_append]
  refine reads_of_primary rfl (reads_array listed fun node es others => ?_) fun _ _ => trivial
  simp only [Expr.move, Expr.moveAll_eq_map, others]
  rfl

theorem readable_index (target : Readable t) (key : Readable u) : Readable (.index t u) := by
  refine .of_bare rfl ?_
  have closed := target.closed
  simp only [Term.words]
  obtain ⟨w, ws, whole, opens⟩ := enclose_cons t
  rw [whole] at closed ⊢
  rw [List.append_assoc]
  refine reads_of_unary (reads_trailed opens.unsigned closed fun head found => ?_) fun _ stops =>
    stops.plain
  refine reads_index key.bare fun node i inside => ?_
  simp only [Expr.move, found, inside]
  rfl

theorem readable_lambda (xs : List String) (body : Readable t) : Readable (.lambda xs t) := by
  have closed : Reads primary (Term.words (.lambda xs t)) Anything
      fun e => e.move .nowhere = Term.tree (.lambda xs t) := by
    simp only [Term.words]
    refine reads_group (reads_of_primary rfl (reads_lambda xs body.bare ?_) fun _ stops => stops)
    intro node inside e found
    simp only [Expr.move, Func.move, Body.move, found]
    rfl
  exact .of_closed rfl (by simp only [Term.words, List.cons_append]; rfl) rfl closed

end Terms

section Commands

abbrev CommandReads (c : Command) : Prop :=
  Reads statement c.words Anything fun st => st.move .nowhere = c.tree

theorem reads_statements {closing : TokenKind}
    (closes : closing = .rightBrace ∨ closing = .endOfInput) (cs : List Command)
    (each : ∀ c ∈ cs, CommandReads c) :
    Reads (fun n => statements n closing) (Command.allWords cs) (· = closing)
      fun ss => ss.map (Stmt.move .nowhere) = Command.trees cs := by
  induction cs with
  | nil =>
    refine Reads.of_succ (reads_eat_other ?_ ?_)
    · rintro _ rfl
      rcases closes with rfl | rfl <;> exact nofun
    · refine reads_peek_kind (· = closing) (fun _ closed => closed) fun t closed => ?_
      simp only [if_pos closed]
      exact reads_pure rfl
  | cons c cs ih =>
    have rest := ih fun c member => each c (by simp [member])
    have begins := fun kind => begins_words c kind (Command.allWords cs)
    refine Reads.of_succ (reads_eat_other (fun kind _ => (begins kind).1) ?_)
    refine reads_peek_kind Begins (fun kind _ => begins kind) fun t here => ?_
    have inside : t.kind ≠ closing := by
      rcases closes with rfl | rfl
      · exact here.2.1
      · exact here.2.2
    simp only [if_neg inside, if_neg here.2.2]
    refine (each c (by simp)).bind (fun st found => ?_) fun _ _ => trivial
    refine rest.andThen (fun sts others => reads_pure ?_) fun _ closed => closed
    simp only [List.map_cons, found, others, Command.trees]

theorem reads_block {ws : List Word} {inner : List Stmt → Prop} {good : Block → Prop}
    (reads : Reads (fun n => statements n .rightBrace) ws (· = .rightBrace) inner)
    (made : ∀ node ss, inner ss → good (.mk node ss)) :
    Reads block (Written.brace ws) Anything good := by
  refine Reads.of_succ (reads_expect (by decide) fun _ _ => ?_)
  refine reads.bind (fun ss found => ?_) fun _ _ => rfl
  exact reads_advance nofun fun _ _ => reads_newBlock fun node => made node ss found

theorem reads_braced {cs : List Command} (each : ∀ c ∈ cs, CommandReads c) :
    Reads block (Written.brace (Command.allWords cs)) Anything
      fun b => b.move .nowhere = .mk Written.node (Command.trees cs) := by
  refine reads_block (reads_statements (.inl rfl) cs each) fun node ss found => ?_
  simp only [Block.move, Stmt.moveAll_eq_map, found]
  rfl

theorem readable_function (xs : List String) {cs : List Command} (each : ∀ c ∈ cs, CommandReads c) :
    Readable (.function xs cs) := by
  refine .of_bare rfl ?_
  simp only [Term.words, List.cons_append]
  refine reads_of_primary rfl (reads_function xs (reads_braced each) ?_) fun _ _ => trivial
  intro node inside b found
  simp only [Expr.move, Func.move, Body.move, found]
  rfl

theorem reads_statement {w v : Word} {ws : List Word} {form : Form} {good : Stmt → Prop}
    (found : Form.of w.1 v.1 = form)
    (reads : ∀ t : Token, t.word = w →
      Reads (fun n => form.parse n t) (w :: v :: ws) Anything good) :
    Reads statement (w :: v :: ws) Anything good := by
  refine Reads.of_succ ?_
  simp only [statement_succ]
  refine reads_peek fun t shown => reads_peekSecond ?_
  rw [show t.kind = w.1 from congrArg Prod.fst shown, found]
  exact reads t shown

theorem reads_expr {t : Term} (readable : Readable t) : CommandReads (.expr t) := by
  obtain ⟨w, v, ws, whole, form⟩ := looksPlain_words t
  have value := readable.bare
  simp only [CommandReads, Command.words, whole]
  refine reads_statement form fun first _ => ?_
  rw [← whole]
  refine value.bind (fun e found => reads_eat (by decide) (reads_newStmt fun id => ?_))
    fun _ _ => ?_
  · simp only [Stmt.move, found]
    rfl
  · exact .inr (.inr (.inr rfl))

theorem reads_assign (x : String) {t : Term} (readable : Readable t) :
    CommandReads (.assign x t) := by
  refine reads_statement rfl fun first shown => ?_
  refine reads_advance (show TokenKind.identifier ≠ .endOfInput from nofun) fun _ _ => ?_
  refine reads_expect (by decide) fun _ _ => ?_
  refine readable.bare.bind (fun e found => reads_eat (by decide) (reads_newStmt fun id => ?_))
    fun _ _ => ?_
  · simp only [Stmt.move, found, show first.text = x from congrArg Prod.snd shown]
    rfl
  · exact .inr (.inr (.inr rfl))

theorem reads_declare (x : String) (isConst : Bool) {t : Term} (readable : Readable t) :
    CommandReads (.declare x t isConst) := by
  have form : Form.of (if isConst then TokenKind.constWord else .varWord) .identifier =
      .declaration isConst := by
    cases isConst <;> rfl
  refine reads_statement form fun first _ => Reads.of_succ ?_
  refine reads_advance (by cases isConst <;> exact nofun) fun _ _ => ?_
  refine reads_expect (by decide) fun name shown => reads_expect (by decide) fun _ _ => ?_
  refine readable.bare.bind (fun e found => reads_eat (by decide) (reads_newStmt fun id => ?_))
    fun _ _ => ?_
  · simp only [Stmt.move, found, show name.text = x from congrArg Prod.snd shown]
    rfl
  · exact .inr (.inr (.inr rfl))

theorem reads_named (x : String) (xs : List String) {cs : List Command}
    (each : ∀ c ∈ cs, CommandReads c) :
    CommandReads (.function x xs cs) := by
  have body := reads_braced each
  refine reads_statement rfl fun first _ => ?_
  refine reads_advance (show TokenKind.functionWord ≠ .endOfInput from nofun) fun _ _ => ?_
  refine reads_expect (by decide) fun name shown => ?_
  have named : name.text = x := congrArg Prod.snd shown
  refine (reads_params xs).bind ?_ fun _ _ => trivial
  intro ys same
  rw [same, named]
  refine body.andThen (fun b found => ?_) fun _ _ => trivial
  refine reads_newFunc_bind fun inside => reads_newStmt fun id => ?_
  simp only [Stmt.move, Func.move, Body.move, found]
  rfl

theorem reads_nested {cs : List Command} (each : ∀ c ∈ cs, CommandReads c) :
    CommandReads (.block cs) := by
  have body := reads_braced each
  obtain ⟨w, ws, whole⟩ : ∃ w ws, Command.allWords cs ++ [sign .rightBrace] = w :: ws :=
    List.exists_cons_of_ne_nil (by simp)
  simp only [CommandReads, Command.words, Written.brace, List.cons_append, whole] at body ⊢
  refine reads_statement rfl fun first _ => ?_
  refine body.andThen (fun b found => reads_newStmt fun id => ?_) fun _ _ => trivial
  simp only [Stmt.move, found]
  rfl

end Commands

mutual

theorem readable : (t : Term) → Readable t
  | .integer k small => .of_closed rfl rfl rfl (reads_integer k small fun _ => rfl)
  | .text s => readable_literal rfl rfl rfl (v := .text s) (by rintro ⟨⟩ ⟨⟩; rfl) rfl
  | .boolean true => readable_literal rfl rfl rfl (v := .boolean true) (by rintro ⟨⟩ ⟨⟩; rfl) rfl
  | .boolean false => readable_literal rfl rfl rfl (v := .boolean false) (by rintro ⟨⟩ ⟨⟩; rfl) rfl
  | .null => readable_literal rfl rfl rfl (v := .null) (by rintro ⟨⟩ ⟨⟩; rfl) rfl
  | .name x => .of_closed rfl rfl rfl (reads_name x fun _ => rfl)
  | .binary op t u => readable_binary op (readable t) (readable u)
  | .unary op t => readable_unary op (readable t)
  | .call f args => readable_call (readable f) (readable_each args)
  | .array items => readable_array (readable_each items)
  | .index t key => readable_index (readable t) (readable key)
  | .lambda xs body => readable_lambda xs (readable body)
  | .function xs body => readable_function xs (reads_each body)

theorem readable_each : (ts : List Term) → ∀ t ∈ ts, Readable t
  | [] => List.forall_mem_nil _
  | t :: ts => List.forall_mem_cons.mpr ⟨readable t, readable_each ts⟩

theorem reads_command : (c : Command) → CommandReads c
  | .expr e => reads_expr (readable e)
  | .declare x e isConst => reads_declare x isConst (readable e)
  | .assign x e => reads_assign x (readable e)
  | .function x xs body => reads_named x xs (reads_each body)
  | .block body => reads_nested (reads_each body)

theorem reads_each : (cs : List Command) → ∀ c ∈ cs, CommandReads c
  | [] => List.forall_mem_nil _
  | c :: cs => List.forall_mem_cons.mpr ⟨reads_command c, reads_each cs⟩

end

theorem reads_program (cs : List Command) :
    Reads program (Command.allWords cs) (· = .endOfInput)
      fun b => b.move .nowhere = .mk Written.node (Command.trees cs) := by
  refine reads_peek_any fun _ => ?_
  refine (reads_statements (.inr rfl) cs (reads_each cs)).andThen (fun ss found => ?_)
    fun _ ended => ended
  refine reads_peek_any fun _ => reads_newBlock fun node => ?_
  simp only [Block.move, Stmt.moveAll_eq_map, found]
  rfl

end ScriptKit.Parser

namespace ScriptKit.Written
open ScriptKit.Parser

/-- A program that is written out parses, at whatever offsets its words stand and whatever the
catalogue holds, and the tree is the program's. -/
theorem parseProgram_words (program : List Command) (tokens : List Token) (last : Token)
    (spelled : tokens.map Token.word = Command.allWords program) (ended : last.kind = .endOfInput)
    (ast : Ast) :
    ∃ b after, parseProgram (tokens ++ [last]) ast = (.ok b, after) ∧
      b.move .nowhere = .mk node (Command.trees program) := by
  obtain ⟨b, after, ⟨least, given⟩, found⟩ := reads_program program tokens [last] ast spelled ended
  let granted := stepsFor (tokens ++ [last])
  have run := given (max least granted) (by omega)
  rw [program_more_steps ⟨rfl, ended⟩ (by omega)] at run
  refine ⟨b, after, ?_, found⟩
  simp only [EStateM.run] at run
  simp only [parseProgram, Parser.run, run]

/-- The program `function twice(f) { const g = (fn(x) => f((f(x)))); { g; } }` followed by
`n = -((twice[0])((1 + n), (function() {})));`. -/
theorem parseProgram_words_twice :
    let twice : Command := .function "twice" ["f"]
      [.declare "g" (.lambda ["x"] (.call (.name "f") [.call (.name "f") [.name "x"]])) true,
        .block [.expr (.name "g")]]
    let program : List Command := [twice, .assign "n" (.unary .neg (.call
      (.index (.name "twice") (.integer 0 (by decide)))
      [.binary .add (.integer 1 (by decide)) (.name "n"), .function [] []]))]
    let tokens := (Command.allWords program).map fun w => Token.mk w.1 w.2 ⟨0, 0⟩ .origin .origin
    let last : Token := ⟨.endOfInput, "", ⟨0, 0⟩, .origin, .origin⟩
    tokens.map Token.word = Command.allWords program ∧
      ∃ b after, parseProgram (tokens ++ [last]) {} = (.ok b, after) ∧
        b.move .nowhere = .mk node (Command.trees program) := by
  intro twice program tokens last
  have spelled : tokens.map Token.word = Command.allWords program := by decide +kernel
  exact ⟨spelled, parseProgram_words program tokens last spelled rfl {}⟩

end ScriptKit.Written
