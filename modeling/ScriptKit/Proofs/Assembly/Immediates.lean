import Mathlib.Data.Nat.Digits.Defs
import Mathlib.Tactic.Positivity
import ScriptKit.Proofs.Assembly.Grammar

/-! What immediates mean.

A text that is written as a number stands for one integer. The assembler takes it if the integer has
a place in the width, unsigned or in two's complement, and says which of the two is missing if it
does not. -/

namespace ScriptKit

/-- The integers that a width has a place for: from the least one in two's complement up to the
greatest one without a sign. -/
def Width.Holds (width : Width) (z : Int) : Prop :=
  -2 ^ (8 * width.size - 1) ≤ z ∧ z ≤ 2 ^ (8 * width.size) - 1

namespace Assembly

variable {width : Width} {text : List Char} {n : Nat} {z : Int}

theorem represents_iff :
    Represents width n z ↔ width.Holds z ∧ (n : Int) = z % 2 ^ (8 * width.size) := by
  have power : (width.count : Int) = 2 ^ (8 * width.size) := by cases width <;> rfl
  have half : (width.count / 2 : Nat) = (2 : Int) ^ (8 * width.size - 1) := by cases width <;> rfl
  unfold Represents Width.Holds
  rw [power, half, and_assoc, Int.le_sub_one_iff]

/-- Either a text stands for one integer, which the width has a place for or not, or for none at
all. -/
theorem immediate_cases (width : Width) (text : List Char) :
    (∃ z, (∀ z', Immediate text z' ↔ z' = z) ∧ ((∃ n, immediate width text = .ok n) ∨
      immediate width text = .error (.immediateOutOfRange (String.ofList text)))) ∨
    (∀ z, ¬ Immediate text z) ∧
    immediate width text = .error (.expectedImmediate (String.ofList text)) := by
  unfold immediate
  extract_lets body
  have same : ∀ z, Immediate text z ↔ Signed body z := fun z => immediate_iff
  clear_value body
  split
  rename_i negative digits parts
  simp only [same, signed_iff parts]
  cases magnitude? digits with
  | none => exact .inr ⟨by simp, rfl⟩
  | some m =>
    refine .inl ⟨if negative then -(m : Int) else m, fun z => by simp, ?_⟩
    dsimp only
    split <;> split
    · exact .inl ⟨_, rfl⟩
    · exact .inr rfl
    · exact .inl ⟨_, rfl⟩
    · exact .inr rfl

theorem Immediate.unique {z' : Int} (written : Immediate text z) (written' : Immediate text z') :
    z = z' := by
  rcases immediate_cases .qword text with ⟨_, only, -⟩ | ⟨nothing, -⟩
  · exact ((only z).mp written).trans ((only z').mp written').symm
  · exact absurd written (nothing z)

theorem immediate_taken_iff : immediate width text = .ok n ↔
    ∃ z, Immediate text z ∧ width.Holds z ∧ (n : Int) = z % 2 ^ (8 * width.size) := by
  simp only [immediate_eq_ok_iff, represents_iff]

/-- An integer that the width has a place for is encoded, so one that is refused has none. -/
theorem exists_immediate (written : Immediate text z) (holds : width.Holds z) :
    ∃ n, immediate width text = .ok n := by
  have positive : (0 : Int) ≤ z % 2 ^ (8 * width.size) := Int.emod_nonneg z (by positivity)
  refine ⟨(z % 2 ^ (8 * width.size)).toNat, immediate_taken_iff.mpr ⟨z, written, holds, ?_⟩⟩
  exact Int.toNat_of_nonneg positive

theorem immediate_outOfRange_iff :
    immediate width text = .error (.immediateOutOfRange (String.ofList text)) ↔
      ∃ z, Immediate text z ∧ ¬ width.Holds z := by
  rcases immediate_cases width text with ⟨z, only, outcome⟩ | ⟨nothing, refused⟩
  · have written := (only z).mpr rfl
    rcases outcome with ⟨n, done⟩ | refused
    · obtain ⟨z', written', holds, -⟩ := immediate_taken_iff.mp done
      rw [done]
      refine ⟨by rintro ⟨⟩, ?_⟩
      rintro ⟨z'', written'', outside⟩
      exact absurd (written'.unique written'' ▸ holds) outside
    · refine ⟨fun _ => ⟨z, written, fun holds => ?_⟩, fun _ => refused⟩
      obtain ⟨n, done⟩ := exists_immediate written holds
      cases done.symm.trans refused
  · rw [refused]
    exact ⟨by rintro ⟨⟩, fun ⟨z, written, _⟩ => absurd written (nothing z)⟩

theorem immediate_expected_iff :
    immediate width text = .error (.expectedImmediate (String.ofList text)) ↔
      ∀ z, ¬ Immediate text z := by
  rcases immediate_cases width text with ⟨z, only, outcome⟩ | ⟨nothing, refused⟩
  · refine ⟨fun refused => ?_, fun none => absurd ((only z).mpr rfl) (none z)⟩
    rcases outcome with ⟨n, done⟩ | refused'
    · cases done.symm.trans refused
    · cases refused'.symm.trans refused
  · exact ⟨fun _ => nothing, fun _ => refused⟩

/-- An immediate means what it says: the number that is encoded is the integer that is written,
modulo the width. What has no place in the width is told from what is no number, and the bytes of
the width, lowest first, hold all of the number. -/
theorem immediate_exact (width : Width) (text : List Char) :
    (∀ v, immediate width text = .ok v ↔
      ∃ z, Immediate text z ∧ width.Holds z ∧ (v : Int) = z % 2 ^ (8 * width.size)) ∧
    (immediate width text = .error (.immediateOutOfRange (String.ofList text)) ↔
      ∃ z, Immediate text z ∧ ¬ width.Holds z) ∧
    (immediate width text = .error (.expectedImmediate (String.ofList text)) ↔
      ∀ z, ¬ Immediate text z) ∧
    (∀ z z', Immediate text z → Immediate text z' → z = z') ∧
    ∀ v, immediate width text = .ok v → (toBytes width.size v).length = width.size ∧
      Nat.ofDigits 256 ((toBytes width.size v).map UInt8.toNat) = v := by
  refine ⟨fun _ => immediate_taken_iff, immediate_outOfRange_iff, immediate_expected_iff,
    fun _ _ => Immediate.unique, fun v done => ⟨length_toBytes _ _, ?_⟩⟩
  rw [← ofBytes_eq_ofDigits, ofBytes_toBytes (width.count_eq ▸ immediate_lt done)]

-- The least number that four bytes hold, and the one below it.
example : immediate .dword "$-0x080000000".toList = .ok 0x80000000 := by decide
example : immediate .dword "-2147483649".toList = .error (.immediateOutOfRange "-2147483649") := by
  decide

end Assembly

end ScriptKit
