import ScriptKit.Eval.World
import ScriptKit.Value.Printer

/-! What the builtins do. -/

namespace ScriptKit.Builtin

def wrongCount (b : Builtin) (expected : String) (args : List Value) (span : Span) : Eval Value :=
  Eval.fail (.builtinArity b expected args.length) span

def wrongArgument (b : Builtin) (expected : String) (span : Span) : Eval Value :=
  Eval.fail (.builtinArgument b expected) span

/-- Writes the arguments, a blank between any two, in one piece. -/
def writeAll (args : List Value) (ending : String) (span : Span) : Eval Value := do
  Eval.write (" ".intercalate (args.map Value.toText) ++ ending) span
  return .null

def takeInput (span : Span) : Eval Value := do
  match ← Eval.readLine span with
  | some line => return .text line
  | none => return .null

def readInput (args : List Value) (span : Span) : Eval Value :=
  match args with
  | [] => takeInput span
  | [.text prompt] => do
    Eval.write prompt span
    takeInput span
  | [_] => wrongArgument .read "a string prompt" span
  | _ => wrongCount .read "0 or 1" args span

/-- Ends the program with a status that fits in a byte. -/
def leave (args : List Value) (span : Span) : Eval Value :=
  match args with
  | [] => Eval.fail (.exit 0) span
  | [.integer n] =>
    if 0 ≤ n.toInt ∧ n.toInt ≤ 255 then Eval.fail (.exit (UInt8.ofNat n.toInt.toNat)) span
    else wrongArgument .exit "an integer status from 0 to 255" span
  | [_] => wrongArgument .exit "an integer status from 0 to 255" span
  | _ => wrongCount .exit "0 or 1" args span

/-- A builtin that calls no function. `arrayFilter` is met here as a predicate only, with one
argument, which is one too few. -/
def perform (b : Builtin) (args : List Value) (span : Span) : Eval Value :=
  match b with
  | println => writeAll args "\n" span
  | print => writeAll args "" span
  | array | vector => return .array args
  | arrayFilter => wrongCount arrayFilter "2" args span
  | read => readInput args span
  | exit => leave args span

abbrev Enter := FuncId → ScopeId → List Value → Span → Eval Value

def keepItems (test : Value → Eval Value) : List Value → Eval (List Value)
  | [] => return []
  | v :: vs => do
    let kept ← test v
    let rest ← keepItems test vs
    return if kept.isTruthy then v :: rest else rest

/-- Keeps the items of an array that a function wants. A function without parameters is called
without arguments. -/
def filter (funcs : Array Func) (enter : Enter) (args : List Value) (span : Span) : Eval Value :=
  match args with
  | [.array items, .function (.builtin b)] => do
    return .array (← keepItems (fun v => b.perform [v] span) items)
  | [.array items, .function (.closure f env)] =>
    match funcs[f]? with
    | none => Eval.fail (.missingFunction f) span
    | some func =>
      match func.params with
      | [] => do return .array (← keepItems (fun _ => enter f env [] span) items)
      | [_] => do return .array (← keepItems (fun v => enter f env [v] span) items)
      | _ => wrongArgument .arrayFilter "a function of at most one parameter" span
  | [_, _] => wrongArgument .arrayFilter "an array and a function" span
  | _ => wrongCount .arrayFilter "2" args span

end ScriptKit.Builtin
