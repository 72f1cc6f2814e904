import Mathlib.Data.Int.ModEq
import ScriptKit.Eval.Basic

/-! Integer expressions are computed modulo `2 ^ 64`.

Wrapping around is a homomorphism of rings, so it makes no difference whether it is done at every
operator or once at the end. A remainder is not computed modulo anything: it is that of the two
values that its operands wrapped to. -/

namespace ScriptKit

structure WrapsTo (z : Int) (n : Int64) : Prop where
  least : -2 ^ 63 ≤ n.toInt
  greatest : n.toInt < 2 ^ 63
  congruent : n.toInt ≡ z [ZMOD 2 ^ 64]

/-- What is left of `a` when a division by `b` is cut off towards zero. -/
structure IsRemainder (a b r : Int) : Prop where
  division : ∃ q, a = q * b + r
  small : |r| < |b|
  signed : r = 0 ∨ r.sign = a.sign

theorem wrapsTo_ofInt (z : Int) : WrapsTo z (.ofInt z) := by
  refine ⟨Int64.le_toInt _, Int64.toInt_lt _, ?_⟩
  rw [Int64.toInt_ofInt]
  exact (Int.modEq_iff_dvd.mpr Int.dvd_bmod_sub_self).symm

theorem isRemainder_tmod (a : Int) {b : Int} (divides : b ≠ 0) : IsRemainder a b (a.tmod b) where
  division := ⟨a.tdiv b, by rw [Int.mul_comm, Int.mul_tdiv_add_tmod]⟩
  small := by
    have below := Nat.mod_lt a.natAbs (Int.natAbs_pos.mpr divides)
    rw [← Int.natAbs_tmod] at below
    rw [Int.abs_eq_natAbs, Int.abs_eq_natAbs]
    exact Int.ofNat_lt.mpr below
  signed := by
    have sign := Int.sign_tmod a b
    split at sign
    · exact .inl (Int.sign_eq_zero_iff_zero.mp sign)
    · exact .inr sign

/-- An expression of integers, names of integers, signs, sums, differences and products, and its
exact value, with nothing wrapped around on the way. -/
inductive Exact (scopes : Scopes) (scope : ScopeId) : Expr → Int → Prop where
  | literal {node : Node} {n : Int64} : Exact scopes scope (.literal node (.integer n)) n.toInt
  | name {node : Node} {x : String} {n : Int64} : scopes.resolve? scope x = some (.integer n) →
      Exact scopes scope (.name node x) n.toInt
  | neg {node : Node} {a : Expr} {x : Int} : Exact scopes scope a x →
      Exact scopes scope (.unary node .neg a) (-x)
  | add {node : Node} {a b : Expr} {x y : Int} : Exact scopes scope a x → Exact scopes scope b y →
      Exact scopes scope (.binary node .add a b) (x + y)
  | sub {node : Node} {a b : Expr} {x y : Int} : Exact scopes scope a x → Exact scopes scope b y →
      Exact scopes scope (.binary node .sub a b) (x - y)
  | mul {node : Node} {a b : Expr} {x y : Int} : Exact scopes scope a x → Exact scopes scope b y →
      Exact scopes scope (.binary node .mul a b) (x * y)

namespace Evaluator

section Operators

variable {rules : Rules} {scope : ScopeId} {w w₁ w₂ : World} {node : Node} {a b : Expr}
  {x y : Value}

theorem run_name {name : String} (bound : w.scopes.resolve? scope name = some x) :
    (expr rules scope (.name node name)).run w = .ok x w := by
  have found : (Eval.scopes : Eval Scopes) w = .ok w.scopes w := rfl
  simp only [expr, Evaluator.name, EStateM.run, Bind.bind, EStateM.bind, found, bound]
  rfl

theorem run_unary {op : UnaryOp} (operand : (expr rules scope a).run w = .ok x w₁) :
    (expr rules scope (.unary node op a)).run w =
      (Eval.ofExcept node.span (Operators.unary op x)).run w₁ := by
  simp only [EStateM.run] at operand
  simp only [expr, EStateM.run, Bind.bind, EStateM.bind, operand]

theorem run_binary {op : BinaryOp} (left : (expr rules scope a).run w = .ok x w₁)
    (right : (expr rules scope b).run w₁ = .ok y w₂) :
    (expr rules scope (.binary node op a b)).run w =
      (Eval.ofExcept node.span (Operators.binary op x y)).run w₂ := by
  simp only [EStateM.run] at left right
  simp only [expr, EStateM.run, Bind.bind, EStateM.bind, left, right]

/-- A remainder fails for a zero divisor only, and else is the integer that the division leaves. -/
theorem run_mod {m n : Int64} (left : (expr rules scope a).run w = .ok (.integer m) w₁)
    (right : (expr rules scope b).run w₁ = .ok (.integer n) w₂) :
    (expr rules scope (.binary node .mod a b)).run w =
      if n.toInt = 0 then .error ⟨.divisionByZero, some node.span⟩ w₂
      else .ok (.integer (m % n)) w₂ := by
  have zero : n.toInt = 0 ↔ n = 0 := Int64.toInt_inj (y := 0)
  rw [run_binary left right]
  by_cases none : n = 0
  · rw [if_pos (zero.mpr none)]
    simp only [Operators.binary, Operators.integers, if_pos none]
    rfl
  · rw [if_neg (mt zero.mp none)]
    simp only [Operators.binary, Operators.integers, if_neg none]
    rfl

end Operators

/-- The value of an integer expression is its exact value, wrapped around once. -/
theorem run_exact (rules : Rules) {scope : ScopeId} {w : World} {e : Expr} {z : Int}
    (exact : Exact w.scopes scope e z) :
    (expr rules scope e).run w = .ok (.integer (.ofInt z)) w := by
  induction exact with
  | literal =>
    rw [Int64.ofInt_toInt]
    rfl
  | name bound =>
    rw [Int64.ofInt_toInt]
    exact run_name bound
  | neg _ operand =>
    rw [run_unary operand, Int64.ofInt_neg]
    rfl
  | add _ _ left right =>
    rw [run_binary left right, Int64.ofInt_add]
    rfl
  | sub _ _ left right =>
    rw [run_binary left right, Int64.ofInt_sub]
    rfl
  | mul _ _ left right =>
    rw [run_binary left right, Int64.ofInt_mul]
    rfl

/-- However deep it is nested, an expression of integers, names of integers, signs, sums,
differences and products has a value, and this is congruent to the exact one. The remainder of two
such values is that of a division that is cut off towards zero, and there is one unless the divisor
is zero. -/
theorem integers_modular (rules : Rules) (scope : ScopeId) (w : World) :
    (∀ e z, Exact w.scopes scope e z →
      ∃ n, (expr rules scope e).run w = .ok (.integer n) w ∧ WrapsTo z n) ∧
    ∀ node a b x y, Exact w.scopes scope a x → Exact w.scopes scope b y →
      ∃ m n, (expr rules scope a).run w = .ok (.integer m) w ∧ WrapsTo x m ∧
        (expr rules scope b).run w = .ok (.integer n) w ∧ WrapsTo y n ∧
        ((expr rules scope (.binary node .mod a b)).run w =
          .error ⟨.divisionByZero, some node.span⟩ w ↔ n.toInt = 0) ∧
        (n.toInt ≠ 0 → ∃ r, (expr rules scope (.binary node .mod a b)).run w = .ok (.integer r) w ∧
          IsRemainder m.toInt n.toInt r.toInt) := by
  refine ⟨fun e z exact => ⟨_, run_exact rules exact, wrapsTo_ofInt z⟩,
    fun node a b x y left right => ?_⟩
  have divided : (expr rules scope (.binary node .mod a b)).run w = _ :=
    run_mod (run_exact rules left) (run_exact rules right)
  refine ⟨_, _, run_exact rules left, wrapsTo_ofInt x, run_exact rules right, wrapsTo_ofInt y, ?_,
    fun divides => ?_⟩
  · rw [divided]
    split
    · rename_i zero
      exact iff_of_true rfl zero
    · rename_i divides
      refine iff_of_false ?_ divides
      rintro ⟨⟩
  · rw [divided, if_neg divides]
    refine ⟨_, rfl, ?_⟩
    rw [Int64.toInt_mod]
    exact isRemainder_tmod _ divides

/-- A declaration binds the least integer to a name. It is divided by minus one, and is made less by
one. -/
theorem integers_modular_least :
    let rules := rulesFor #[] Scopes.release 128
    let node : Node := ⟨0, ⟨0, 0⟩⟩
    let one : Expr := .literal node (.integer 1)
    let minusOne : Expr := .unary node .neg one
    let greatest : Expr := .literal node (.integer 9223372036854775807)
    let least : Expr := .name node "n"
    let declares : Stmt :=
      .declare node "n" (.binary node .sub (.unary node .neg greatest) one) false
    ∃ v w, (stmt rules Scopes.globalId declares).run {} = .ok v w ∧
      Exact w.scopes Scopes.globalId (.binary node .sub least one) (-2 ^ 63 - 1) ∧
      Exact w.scopes Scopes.globalId minusOne (-1) ∧
      (∃ n, (expr rules Scopes.globalId (.binary node .sub least one)).run w = .ok (.integer n) w ∧
        n.toInt = 2 ^ 63 - 1) ∧
      ∃ r, (expr rules Scopes.globalId (.binary node .mod least minusOne)).run w =
        .ok (.integer r) w ∧
        r.toInt = 0 := by
  intro rules node one minusOne greatest least declares
  have declared : ∃ v w, (stmt rules Scopes.globalId declares).run {} = .ok v w ∧
      w.scopes.resolve? Scopes.globalId "n" = some (.integer (-9223372036854775808)) := by
    refine ⟨_, _, rfl, ?_⟩
    unfold Scopes.resolve? Scopes.lookup?
    rw [show Scopes.owner? _ "n" Scopes.globalId = some 0 by decide +kernel]
    rfl
  obtain ⟨v, w, ran, bound⟩ := declared
  have named : Exact w.scopes Scopes.globalId least (-2 ^ 63) := .name bound
  have less : Exact w.scopes Scopes.globalId (.binary node .sub least one) (-2 ^ 63 - 1) :=
    .sub named .literal
  have negative : Exact w.scopes Scopes.globalId minusOne (-1) := .neg .literal
  obtain ⟨values, remainders⟩ := integers_modular rules Scopes.globalId w
  refine ⟨v, w, ran, less, negative, ?_, ?_⟩
  · obtain ⟨n, run, wraps⟩ := values _ _ less
    have congruent := wraps.congruent
    obtain ⟨above, below, _⟩ := wraps
    refine ⟨n, run, ?_⟩
    rw [Int.ModEq] at congruent
    omega
  · obtain ⟨m, n, -, -, run, -, -, divided⟩ := remainders node _ _ _ _ named negative
    have value : n = -1 := by
      cases run
      rfl
    subst value
    obtain ⟨r, run, remainder⟩ := divided (by decide)
    refine ⟨r, run, ?_⟩
    have small := remainder.small
    rw [show |Int64.toInt (-1)| = 1 from rfl] at small
    exact Int.abs_lt_one_iff.mp small

end Evaluator

end ScriptKit
