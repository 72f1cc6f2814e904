import ScriptKit.Assembly.Error
import ScriptKit.Text.Fields
import ScriptKit.Text.Identifier
import ScriptKit.Text.WhiteSpace

/-! The instructions and labels of a program in assembly, before operands are looked at.

A line holds any number of labels, then at most one instruction, then possibly a comment. -/

namespace ScriptKit.Assembly

/-- A line up to its comment, which `;` or `#` begins. -/
def dropComment (line : List Char) : List Char :=
  line.takeWhile fun c => c ≠ ';' && c ≠ '#'

def label? : List Char → Option (List Char × List Char)
  | [] => none
  | c :: cs =>
    if isLetter c then
      match cs.dropWhile isLetterOrDigit with
      | ':' :: rest => some (c :: cs.takeWhile isLetterOrDigit, Text.trim rest)
      | _ => none
    else none

theorem length_trim_le (text : List Char) : (Text.trim text).length ≤ text.length := by
  unfold Text.trim Text.trimStart
  have front := (List.dropWhile_sublist Text.isWhiteSpace (l := text)).length_le
  have back := (List.dropWhile_sublist Text.isWhiteSpace
    (l := (text.dropWhile Text.isWhiteSpace).reverse)).length_le
  simp only [List.length_reverse] at *
  omega

theorem length_label_rest {text name rest : List Char} (found : label? text = some (name, rest)) :
    rest.length < text.length := by
  cases text with
  | nil => simp [label?] at found
  | cons c cs =>
    simp only [label?] at found
    split at found
    · split at found
      · rename_i behind hd
        simp only [Option.some.injEq, Prod.mk.injEq] at found
        have shorter := (List.dropWhile_sublist isLetterOrDigit (l := cs)).length_le
        have trimmed := length_trim_le behind
        rw [hd] at shorter
        simp only [List.length_cons] at *
        rw [← found.2]
        omega
      · cases found
    · cases found

def splitLabels (text : List Char) : List String × List Char :=
  match _ : label? text with
  | none => ([], text)
  | some (name, rest) =>
    let (names, rest) := splitLabels rest
    (String.ofList name :: names, rest)
termination_by text.length
decreasing_by exact length_label_rest ‹_›

structure Instruction where
  line : Nat
  op : Opcode
  operands : List (List Char)
deriving DecidableEq, Repr

/-- The instructions so far, where they end, and the offsets that labels stand for. -/
structure Listing where
  instructions : List Instruction := []
  size : Nat := 0
  labels : List (String × Nat) := []
deriving DecidableEq, Repr

namespace Listing

/-- Lets labels stand for the end of the instructions so far. A label stands for one offset only. -/
def define (listing : Listing) : List String → Except AsmErrorKind Listing
  | [] => .ok listing
  | name :: names =>
    if (listing.labels.lookup name).isSome then .error (.duplicateLabel name)
    else define { listing with labels := (name, listing.size) :: listing.labels } names

/-- The instruction that a text without labels spells. Blanks and commas divide its operands. -/
def instruction (line : Nat) (text : List Char) : Except AsmErrorKind Instruction :=
  let mnemonic := text.takeWhile fun c => !Text.isWhiteSpace c
  let rest := text.dropWhile fun c => !Text.isWhiteSpace c
  match Opcode.ofMnemonic? mnemonic with
  | none => .error (.unknownMnemonic (String.ofList mnemonic))
  | some op =>
    let operands := Text.fields (fun c => c = ',' || Text.isWhiteSpace c) rest
    if operands.length = op.operands.length then .ok ⟨line, op, operands⟩
    else .error (.operandCount op operands.length)

def addLine (listing : Listing) (line : Nat) (raw : List Char) : Except AsmErrorKind Listing := do
  let (names, text) := splitLabels (Text.trim (dropComment raw))
  let listing ← listing.define names
  if text.isEmpty then return listing
  let i ← instruction line text
  return { listing with
    instructions := i :: listing.instructions
    size := listing.size + i.op.size }

def addLines (listing : Listing) (line : Nat) : List (List Char) → Except AsmError Listing
  | [] => .ok listing
  | raw :: rest =>
    match listing.addLine line raw with
    | .error kind => .error ⟨line, kind⟩
    | .ok listing => addLines listing (line + 1) rest

def ofSource (source : String) : Except AsmError Listing := do
  let listing ← addLines {} 1 (Text.lines source.toList)
  return { listing with instructions := listing.instructions.reverse }

end Listing

end ScriptKit.Assembly
