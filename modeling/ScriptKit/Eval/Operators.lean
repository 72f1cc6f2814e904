import ScriptKit.Binary64.Basic
import ScriptKit.Eval.Error

/-! Operators and subscripts on values. -/

namespace ScriptKit.Operators

/-- Integers wrap around at 64 bits. The quotient of two of them is a floating-point number, and the
remainder has the sign of the dividend. -/
def integers (op : BinaryOp) (a b : Int64) : Except RuntimeErrorKind Value :=
  match op with
  | .add => .ok (.integer (a + b))
  | .sub => .ok (.integer (a - b))
  | .mul => .ok (.integer (a * b))
  | .div => if b = 0 then .error .divisionByZero else .ok (.float (a.toFloat / b.toFloat))
  | .mod => if b = 0 then .error .divisionByZero else .ok (.integer (a % b))
  | .lt => .ok (.boolean (a < b))
  | .le => .ok (.boolean (a ≤ b))
  | .gt => .ok (.boolean (b < a))
  | .ge => .ok (.boolean (b ≤ a))
  | .eq => .ok (.boolean (a = b))
  | .ne => .ok (.boolean (a ≠ b))

def floats (op : BinaryOp) (a b : Float) : Except RuntimeErrorKind Value :=
  match op with
  | .add => .ok (.float (a + b))
  | .sub => .ok (.float (a - b))
  | .mul => .ok (.float (a * b))
  | .div => if b == 0.0 then .error .divisionByZero else .ok (.float (a / b))
  | .mod => if b == 0.0 then .error .divisionByZero else .ok (.float (Binary64.remainder a b))
  | .lt => .ok (.boolean (a < b))
  | .le => .ok (.boolean (a ≤ b))
  | .gt => .ok (.boolean (b < a))
  | .ge => .ok (.boolean (b ≤ a))
  | .eq => .ok (.boolean (a == b))
  | .ne => .ok (.boolean (a != b))

def texts (op : BinaryOp) (a b : String) : Except RuntimeErrorKind Value :=
  match op with
  | .add => .ok (.text (a ++ b))
  | .lt => .ok (.boolean (a < b))
  | .le => .ok (.boolean (¬ b < a))
  | .gt => .ok (.boolean (b < a))
  | .ge => .ok (.boolean (¬ a < b))
  | op => .error (.typeMismatch op.symbol .text (some .text))

/-- Any two values can be tested for equality. An integer meets a floating-point number as one. -/
def binary (op : BinaryOp) (a b : Value) : Except RuntimeErrorKind Value :=
  match op, a, b with
  | .eq, a, b => .ok (.boolean (a.equals b))
  | .ne, a, b => .ok (.boolean (!a.equals b))
  | op, .integer m, .integer n => integers op m n
  | op, .text s, .text t => texts op s t
  | op, a, b =>
    match a.toFloat?, b.toFloat? with
    | some x, some y => floats op x y
    | _, _ => .error (.typeMismatch op.symbol a.type (some b.type))

def unary (op : UnaryOp) (a : Value) : Except RuntimeErrorKind Value :=
  match op, a with
  | .neg, .integer n => .ok (.integer (-n))
  | .neg, .float x => .ok (.float (-x))
  | .neg, a => .error (.typeMismatch "-" a.type none)
  | .not, a => .ok (.boolean (!a.isTruthy))

def item? {α : Type} (items : List α) (i : Int64) : Option α :=
  if 0 ≤ i.toInt then items[i.toInt.toNat]? else none

def index (target i : Value) : Except RuntimeErrorKind Value :=
  match target, i with
  | .array items, .integer n =>
    match item? items n with
    | some v => .ok v
    | none => .error (.indexOutOfBounds n items.length)
  | .text s, .integer n =>
    match item? s.toList n with
    | some c => .ok (.text (String.ofList [c]))
    | none => .error (.indexOutOfBounds n s.toList.length)
  | target, i => .error (.typeMismatch "[]" target.type (some i.type))

end ScriptKit.Operators
