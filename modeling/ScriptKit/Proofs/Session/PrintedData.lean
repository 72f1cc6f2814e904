import Mathlib.Data.List.Forall2
import ScriptKit.Proofs.Eval.Integers
import ScriptKit.Proofs.Tree.Printing
import ScriptKit.Proofs.Tree.Viable
import ScriptKit.Proofs.Value.Recasting
import ScriptKit.Session

/-! Printed data is a program of its own value.

Whatever stands for itself is read as a literal or as an array. Only a negative integer is read as
an operation, on the integer without its sign. -/

namespace ScriptKit
open Written (Word sign)
open ScriptKit.Parser

namespace Value

mutual

/-- Integers other than the least, texts without a double quote, booleans, null, and arrays of
these. -/
def IsData : Value → Prop
  | .integer n => -2 ^ 63 < n.toInt
  | .text s => '"' ∉ s.toList
  | .boolean _ | .null => True
  | .array items => AllData items
  | .float _ | .function _ => False

def AllData : List Value → Prop
  | [] => True
  | v :: vs => v.IsData ∧ AllData vs

end

mutual

def printed : Value → List Word
  | .integer n =>
    if n.toInt < 0 then [sign .minus, Literal.printed (.integer (-n))] else
      [Literal.printed (.integer n)]
  | .text s => [Literal.printed (.text s)]
  | .boolean b => [Literal.printed (.boolean b)]
  | .null => [Literal.printed .null]
  | .array items =>
    sign .leftBracket :: ([sign .comma].intercalate (allPrinted items) ++ [sign .rightBracket])
  | .float _ | .function _ => []

def allPrinted : List Value → List (List Word)
  | [] => []
  | v :: vs => v.printed :: allPrinted vs

end

theorem allPrinted_eq_map (vs : List Value) : allPrinted vs = vs.map printed := by
  induction vs with
  | nil => rfl
  | cons v vs ih => rw [allPrinted, ih, List.map_cons]

theorem toRepr_ofLiteral (l : Literal) : (ofLiteral l).toRepr = l.toText := by
  cases l <;> rfl

theorem printed_ofLiteral (l : Literal) (printable : l.Printable) :
    (ofLiteral l).printed = [l.printed] := by
  cases l with
  | integer n => exact if_neg (Int.not_lt.mpr printable)
  | _ => rfl

/-- Wherever it is evaluated, the expression has the value and changes nothing. -/
def IsOf (v : Value) (e : Expr) : Prop :=
  ∀ rules scope w, (Evaluator.expr rules scope e).run w = .ok v w

section Evaluation

variable {v : Value} {e : Expr}

theorem isOf_literal {l : Literal} {node : Node}
    (same : e.move .nowhere = Expr.move .nowhere (.literal node l)) :
    IsOf (ofLiteral l) e := by
  cases e with
  | literal _ l' =>
    simp only [Expr.move, Expr.literal.injEq] at same
    rw [same.2]
    exact fun _ _ _ => rfl
  | function _ f =>
    cases f
    simp [Expr.move, Func.move] at same
  | _ => simp [Expr.move] at same

theorem isOf_neg {n : Int64} (node : Node) (operand : IsOf (.integer (-n)) e) :
    IsOf (.integer n) (.unary node .neg e) := by
  intro rules scope w
  rw [Evaluator.run_unary (operand rules scope w), Operators.unary, Int64.neg_neg]
  rfl

theorem run_exprs {vs : List Value} {es : List Expr} (each : List.Forall₂ IsOf vs es)
    (rules : Rules) (scope : ScopeId) (w : World) :
    (Evaluator.exprs rules scope es).run w = .ok vs w := by
  induction each with
  | nil => rfl
  | cons first _ rest =>
    have first := first rules scope w
    simp only [EStateM.run] at first rest
    simp only [Evaluator.exprs, EStateM.run, Bind.bind, EStateM.bind, first, rest, pure,
      EStateM.pure]

theorem isOf_array {vs : List Value} {es : List Expr} (node : Node)
    (each : List.Forall₂ IsOf vs es) :
    IsOf (.array vs) (.array node es) := by
  intro rules scope w
  have items := run_exprs each rules scope w
  simp only [EStateM.run] at items
  simp only [Evaluator.expr, EStateM.run, Bind.bind, EStateM.bind, items, pure, EStateM.pure]

theorem IsOf.run_block (isOf : v.IsOf e) (node : Node) (id : Nat) (rules : Rules) (scope : ScopeId)
    (w : World) :
    (Evaluator.block rules scope (.mk node [.expr id e])).run w = .ok v w := by
  have value := isOf rules scope w
  simp only [EStateM.run] at value
  simp only [Evaluator.block, Evaluator.stmts, Evaluator.stmt, EStateM.run, Bind.bind, EStateM.bind,
    value, pure, EStateM.pure]

end Evaluation

/-- What data begins with. Neither the end of an array nor another kind of statement does. -/
def openings : List TokenKind :=
  [.minus, .integer, .text, .trueWord, .falseWord, .nullWord, .leftBracket]

structure Conveyed (v : Value) : Prop where
  shown : Shows v.toRepr.toList v.printed Divides
  begins : ∃ w ws, v.printed = w :: ws ∧ w.1 ∈ openings
  reads : Reads unary v.printed Parser.Plain v.IsOf

theorem conveyed_literal (l : Literal) (printable : l.Printable) : Conveyed (ofLiteral l) := by
  have printed := printed_ofLiteral l printable
  refine ⟨?_, ⟨l.printed, [], printed, ?_⟩, ?_⟩
  · rw [toRepr_ofLiteral, printed]
    exact shows_literal l printable
  · cases l with
    | boolean b => cases b <;> decide
    | _ => simp [Literal.printed, sign, openings]
  · rw [printed]
    exact (readsBack_literal Written.node l printable).unary.imp fun _ => isOf_literal

theorem toInt_neg_of_lt {n : Int64} (above : -2 ^ 63 < n.toInt) : (-n).toInt = -n.toInt := by
  have below := n.toInt_lt
  rw [Int64.toInt_neg]
  apply Int.bmod_eq_of_le <;> omega

theorem toString_neg {z : Int} (negative : z < 0) :
    (toString z).toList = '-' :: (toString (-z)).toList := by
  obtain ⟨k, rfl⟩ := Int.eq_negSucc_of_lt_zero negative
  rw [Int.neg_negSucc]
  exact String.toList_append

theorem conveyed_negative {n : Int64} (above : -2 ^ 63 < n.toInt) (negative : n.toInt < 0) :
    Conveyed (.integer n) := by
  have opposite := toInt_neg_of_lt above
  have unsigned := conveyed_literal (.integer (-n)) (show 0 ≤ (-n).toInt by omega)
  have printed : printed (.integer n) = [sign .minus] ++ printed (.integer (-n)) := by
    rw [Value.printed, Value.printed, if_pos negative, if_neg (by omega), List.singleton_append]
  refine ⟨?_, ⟨_, _, printed, by decide⟩, ?_⟩
  · have minus : Shows ['-'] [sign .minus] Whatever :=
      shows_sign rfl rfl (fun _ _ => rfl) (by decide)
    have digits : (toRepr (.integer n)).toList = ['-'] ++ (toRepr (.integer (-n))).toList := by
      simp only [toRepr, toText, opposite]
      exact toString_neg negative
    rw [digits, printed]
    exact minus.append unsigned.shown fun _ _ _ _ => trivial
  · rw [printed]
    exact reads_sign .neg unsigned.reads fun node _ => isOf_neg node

theorem conveyed_array {items : List Value} (each : ∀ v ∈ items, Conveyed v) :
    Conveyed (.array items) := by
  have printed : printed (.array items) =
      sign .leftBracket :: ([sign .comma].intercalate (items.map Value.printed) ++
        [sign .rightBracket]) := by
    rw [Value.printed, allPrinted_eq_map]
  refine ⟨?_, ⟨_, _, printed, by decide⟩, ?_⟩
  · have texts : (toRepr (.array items)).toList =
        '[' :: ([',', ' '].intercalate (items.map fun v => v.toRepr.toList) ++ [']']) := by
      simp [toRepr, toText, reprs_eq_map, String.toList_intercalate, Function.comp_def]
    rw [texts, printed]
    refine (shows_commas ?_).bracketed
    rw [List.forall₂_map_left_iff, List.forall₂_map_right_iff, List.forall₂_same]
    exact fun v member => (each v member).shown
  · have listed := reads_commas (.inr (.inl rfl)) (by decide) (by decide) "]" items
      (fun v member => reads_of_unary (each v member).reads fun _ stops => stops.plain)
      (fun v member => by
        obtain ⟨w, ws, whole, opening⟩ := (each v member).begins
        exact ⟨w, ws, whole, fun closing => absurd (closing ▸ opening) (by decide)⟩)
    rw [printed]
    exact (reads_unary rfl (reads_array listed fun node _ => isOf_array node)).before fun _ plain =>
      ⟨trivial, plain⟩

mutual

theorem conveyed : (v : Value) → v.IsData → Conveyed v
  | .integer n, above =>
    if negative : n.toInt < 0 then conveyed_negative above negative
    else conveyed_literal (.integer n) (Int.not_lt.mp negative)
  | .text s, unquoted => conveyed_literal (.text s) unquoted
  | .boolean b, _ => conveyed_literal (.boolean b) trivial
  | .null, _ => conveyed_literal .null trivial
  | .array items, data => conveyed_array (conveyed_each items data)
  | .float _, data | .function _, data => data.elim

theorem conveyed_each : (vs : List Value) → AllData vs → ∀ v ∈ vs, Conveyed v
  | [], _ => List.forall_mem_nil _
  | v :: vs, data => List.forall_mem_cons.mpr ⟨conveyed v data.1, conveyed_each vs data.2⟩

end

end Value

namespace Parser

/-- A statement that is all there is. -/
theorem reads_sole {w : Word} {ws : List Word} {good : Stmt → Prop} (begins : Begins w.1)
    (reads : Reads statement (w :: ws) Closes good) :
    Reads program (w :: ws) (· = .endOfInput) fun b => ∃ node st, b = .mk node [st] ∧ good st := by
  have rest := reads_statements (.inr rfl) [] (List.forall_mem_nil _)
  have sole : Reads (fun n => statements n .endOfInput) (w :: ws) (· = .endOfInput)
      fun ss => ∃ st, ss = [st] ∧ good st := by
    refine Reads.of_succ (reads_eat_other (fun _ _ => begins.1) ?_)
    refine reads_peek_kind Begins (fun _ _ => begins) fun t here => ?_
    simp only [if_neg here.2.2]
    refine reads.andThen (fun st found => ?_) ?_
    · refine rest.andThen (fun sts none => reads_pure ⟨st, ?_, found⟩) fun _ ended => ended
      rw [List.map_eq_nil_iff.mp none]
    · rintro _ rfl
      exact .inr (.inr (.inr rfl))
  refine reads_peek_any fun _ => sole.andThen (fun ss found => ?_) fun _ ended => ended
  obtain ⟨st, rfl, found⟩ := found
  exact reads_peek_any fun _ => reads_newBlock fun node => ⟨node, st, rfl, found⟩

end Parser

theorem Value.Conveyed.reads_program {v : Value} (conveyed : v.Conveyed) :
    Reads program v.printed (· = .endOfInput) fun b => ∃ node id e, b = .mk node [.expr id e] ∧
      v.IsOf e := by
  obtain ⟨w, ws, whole, opening⟩ := conveyed.begins
  have reads := conveyed.reads
  rw [whole] at reads ⊢
  have alone : Begins w.1 ∧ ∀ kind, Form.of w.1 kind = .expr := by
    generalize w.1 = kind at opening
    simp only [openings, List.mem_cons, List.not_mem_nil, or_false] at opening
    rcases opening with rfl | rfl | rfl | rfl | rfl | rfl | rfl <;>
      exact ⟨⟨by decide, by decide, by decide⟩, fun _ => rfl⟩
  have stated :=
    reads_statement_closed (reads.before fun _ closes => closes.plain) fun kind _ => alone.2 kind
  refine (reads_sole alone.1 stated).imp ?_
  rintro _ ⟨node, _, rfl, id, e, rfl, isOf⟩
  exact ⟨node, id, e, rfl, isOf⟩

namespace Session

/-- Data that is printed and evaluated, in whatever state a session is, is the same data. Nothing
else happens: only the catalogue of trees has grown. -/
theorem eval_toRepr (v : Value) (data : v.IsData) (s : Session) :
    ∃ ast, s.eval v.toRepr = (.ok v, { s with ast }) := by
  have conveyed := v.conveyed data
  obtain ⟨tokens, last, scanned, spelled, ended⟩ := conveyed.shown.scan s.ast.sourceEnd
  obtain ⟨b, after, ⟨least, given⟩, node, id, e, rfl, isOf⟩ :=
    conveyed.reads_program tokens [last] (s.ast.reserve (byteLength v.toRepr.toList)) spelled ended
  have run := given (max least (stepsFor (tokens ++ [last]))) (by omega)
  rw [program_more_steps ⟨rfl, ended⟩ (by omega)] at run
  have parsed : parseProgram (tokens ++ [last]) _ = (.ok _, after) :=
    parseProgram_eq_ok.mpr ⟨_, run, rfl⟩
  have value :=
    isOf.run_block node id (Evaluator.rulesFor after.funcs s.options.reclaim s.options.maxDepth)
    Scopes.globalId s.world
  simp only [EStateM.run] at value
  refine ⟨after, ?_⟩
  simp only [Session.eval, Session.parse, parseSource, scanned, parsed, Session.run, value]

/-- An integer that is the least one of these, and a text that looks like a comment and the end of
the array. -/
theorem eval_toRepr_nested :
    let v : Value :=
  .array [.integer (-9223372036854775807), .array [], .text "// ]\n'",
    .array [.null, .boolean false]]
    v.IsData ∧ v.toRepr = "[-9223372036854775807, [], \"// ]\n'\", [null, false]]" ∧
      ∀ s : Session, ∃ ast, s.eval v.toRepr = (.ok v, { s with ast }) := by
  intro v
  have least : Value.IsData (.integer (-9223372036854775807)) := by
    show (-2 ^ 63 : Int) < _
    decide
  have unquoted : Value.IsData (.text "// ]\n'") := by
    show _ ∉ _
    decide
  have data : v.IsData := ⟨least, trivial, unquoted, ⟨trivial, trivial, trivial⟩, trivial⟩
  exact ⟨data, by decide +kernel, eval_toRepr v data⟩

end Session

end ScriptKit
