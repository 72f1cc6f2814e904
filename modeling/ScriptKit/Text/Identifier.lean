/-! Names: a letter or underscore, then letters, digits and underscores, all of them ASCII. -/

namespace ScriptKit

def isLetter (c : Char) : Bool :=
  c.isAlpha || c = '_'

theorem isUpper_iff {c : Char} : c.isUpper = true ↔ 65 ≤ c.toNat ∧ c.toNat ≤ 90 :=
  decide_eq_true_iff.trans (and_congr UInt32.le_iff_toNat_le UInt32.le_iff_toNat_le)

theorem isLetter_iff {c : Char} :
    isLetter c = true ↔
      (65 ≤ c.toNat ∧ c.toNat ≤ 90 ∨ 97 ≤ c.toNat ∧ c.toNat ≤ 122) ∨ c = '_' := by
  have lower : c.isLower = true ↔ 97 ≤ c.toNat ∧ c.toNat ≤ 122 :=
    Bool.and_eq_true_iff.trans (and_congr (decide_eq_true_iff.trans UInt32.le_iff_toNat_le)
      (decide_eq_true_iff.trans UInt32.le_iff_toNat_le))
  have alpha : c.isAlpha = true ↔ c.isUpper = true ∨ c.isLower = true := Bool.or_eq_true_iff
  rw [isLetter, Bool.or_eq_true_iff, alpha, isUpper_iff, lower, decide_eq_true_iff]

theorem toNat_lt_of_isLetter {c : Char} (letter : isLetter c = true) : c.toNat < 128 := by
  rcases isLetter_iff.mp letter with (upper | lower) | rfl
  · exact Nat.lt_of_le_of_lt upper.2 (by decide)
  · exact Nat.lt_of_le_of_lt lower.2 (by decide)
  · decide

def isLetterOrDigit (c : Char) : Bool :=
  c.isAlphanum || c = '_'

theorem isLetterOrDigit_iff {c : Char} :
    isLetterOrDigit c = true ↔ isLetter c = true ∨ c.isDigit = true := by
  have alphanum : c.isAlphanum = true ↔ c.isAlpha = true ∨ c.isDigit = true := Bool.or_eq_true_iff
  rw [isLetterOrDigit, isLetter, Bool.or_eq_true_iff, Bool.or_eq_true_iff, alphanum, or_right_comm]

def isIdentifier : List Char → Bool
  | [] => false
  | c :: cs => isLetter c && cs.all isLetterOrDigit

end ScriptKit
