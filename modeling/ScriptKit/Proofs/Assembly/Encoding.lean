import Mathlib.Data.List.Forall2
import Mathlib.Data.Nat.Digits.Defs
import ScriptKit.Assembly.Disassembly
import ScriptKit.Bytecode.Container
import ScriptKit.Proofs.Text.Numeral

/-! Numbers, operands and instructions as bytes.

What is read from code at an address is what the bytes there were written for, and nothing else. -/

namespace ScriptKit

theorem bind_eq_ok {ε α β : Type} {x : Except ε α} {f : α → Except ε β} {b : β} :
    (x >>= f) = .ok b ↔ ∃ a, x = .ok a ∧ f a = .ok b := by
  cases x with
  | error e =>
    constructor
    · rintro ⟨⟩
    · rintro ⟨_, ⟨⟩, _⟩
  | ok a =>
    constructor
    · exact fun done => ⟨a, rfl, done⟩
    · rintro ⟨_, ⟨⟩, done⟩
      exact done

section Numbers

theorem length_toBytes (count n : Nat) : (toBytes count n).length = count := by
  induction count generalizing n with
  | zero => rfl
  | succ count ih => simp only [toBytes, List.length_cons, ih]

theorem Width.count_eq (width : Width) : width.count = Text.room 256 width.size := by
  cases width <;> rfl

theorem Width.size_pos (width : Width) : 0 < width.size := by
  cases width <;> decide

theorem Width.count_le (width : Width) : width.count ≤ UInt64.size := by
  cases width <;> decide

theorem ofBytes_toBytes {count n : Nat} (fits : n < Text.room 256 count) :
    ofBytes (toBytes count n) = n := by
  induction count generalizing n with
  | zero =>
    have zero : n = 0 := Nat.lt_one_iff.mp fits
    rw [zero]
    rfl
  | succ count ih =>
    have rest : n / 256 < Text.room 256 count := Nat.div_lt_of_lt_mul fits
    simp only [toBytes, ofBytes, ih rest, UInt8.toNat_ofNat']
    omega

theorem ofBytes_lt (bytes : List UInt8) : ofBytes bytes < Text.room 256 bytes.length := by
  induction bytes with
  | nil => decide
  | cons b bytes ih =>
    have small := b.toNat_lt
    simp only [ofBytes, List.length_cons, Text.room]
    omega

theorem toBytes_ofBytes (bytes : List UInt8) : toBytes bytes.length (ofBytes bytes) = bytes := by
  induction bytes with
  | nil => rfl
  | cons b bytes ih =>
    have small := b.toNat_lt
    have low : UInt8.ofNat (b.toNat + 256 * ofBytes bytes) = b := by
      apply UInt8.toNat_inj.mp
      rw [UInt8.toNat_ofNat']
      omega
    have high : (b.toNat + 256 * ofBytes bytes) / 256 = ofBytes bytes := by omega
    simp only [ofBytes, List.length_cons, toBytes, low, high, ih]

theorem ofBytes_eq_ofDigits (bytes : List UInt8) :
    ofBytes bytes = Nat.ofDigits 256 (bytes.map UInt8.toNat) := by
  induction bytes with
  | nil => rfl
  | cons b bytes ih => rw [ofBytes, List.map_cons, Nat.ofDigits_cons, ih]

/-- What stands behind a piece of a list. -/
theorem drop_behind {l piece rest : List UInt8} {a : Nat} (here : l.drop a = piece ++ rest) :
    l.drop (a + piece.length) = rest := by
  rw [← List.drop_drop, here, List.drop_left]

end Numbers

namespace Bytecode

/-- The bytes that stand in code from an address on. -/
theorem read_eq_ok_iff (code : Bytecode) (width : Width) (address : Nat) (n : UInt64) :
    code.read width address = .ok n ↔ n.toNat < width.count ∧
      ∃ rest, code.toList.drop address = toBytes width.size n.toNat ++ rest := by
  have piece : (code.bytes.extract address (address + width.size)).toList =
      (code.toList.drop address).take width.size := by
    rw [Array.toList_extract, List.extract_eq_take_drop, Nat.add_sub_cancel_left]
    rfl
  have total : code.toList.length = code.size := Array.length_toList
  unfold read
  rw [piece]
  constructor
  · intro done
    split at done
    · rename_i inside
      have full : ((code.toList.drop address).take width.size).length = width.size := by
        rw [List.length_take, List.length_drop, total]
        omega
      have bound := ofBytes_lt ((code.toList.drop address).take width.size)
      have back := toBytes_ofBytes ((code.toList.drop address).take width.size)
      rw [full] at bound back
      rw [← Width.count_eq] at bound
      have value : n.toNat = ofBytes ((code.toList.drop address).take width.size) := by
        rw [← Except.ok.inj done, UInt64.toNat_ofNat']
        exact Nat.mod_eq_of_lt (Nat.lt_of_lt_of_le bound width.count_le)
      rw [value, back]
      exact ⟨bound, _, (List.take_append_drop width.size _).symm⟩
    · cases done
  · rintro ⟨fits, rest, written⟩
    have lengths := congrArg List.length written
    rw [List.length_drop, List.length_append, length_toBytes, total] at lengths
    -- Behind the end there is nothing to read, and no width is empty.
    have inside : address + width.size ≤ code.size := by
      have := width.size_pos
      omega
    rw [if_pos inside, written, List.take_left' (length_toBytes _ _),
      ofBytes_toBytes (width.count_eq ▸ fits), UInt64.ofNat_toNat]

end Bytecode

namespace Operand

def value : Operand → Nat
  | register r => r.val
  | immediate n | address n => n.toNat

def Fits (o : Operand) (spec : OperandSpec) : Prop :=
  match o with
  | register _ => spec = ⟨.byte, .register⟩
  | immediate n => spec.mode = .immediate ∧ n.toNat < spec.width.count
  | address n => spec.mode = .address ∧ n.toNat < spec.width.count

theorem Fits.value_lt {o : Operand} {spec : OperandSpec} (fits : o.Fits spec) :
    o.value < spec.width.count := by
  cases o with
  | register r =>
    cases fits
    exact Nat.lt_trans r.isLt (by decide)
  | immediate n => exact fits.2
  | address n => exact fits.2

def encode : List OperandSpec → List Operand → List UInt8
  | spec :: specs, o :: os => toBytes spec.width.size o.value ++ encode specs os
  | _, _ => []

end Operand

/-- Registers take one byte. -/
theorem Opcode.register_width (op : Opcode) :
    ∀ spec ∈ op.operands, spec.mode = .register → spec.width = .byte := by
  cases op <;> decide

namespace Disassembly

theorem operand_eq_ok_iff {spec : OperandSpec} (narrow : spec.mode = .register → spec.width = .byte)
    {n : UInt64} (small : n.toNat < spec.width.count) (o : Operand) :
    operand spec.mode n = .ok o ↔ o.Fits spec ∧ o.value = n.toNat := by
  obtain ⟨width, mode⟩ := spec
  cases mode with
  | register =>
    cases narrow rfl
    have low : n.toUInt8.toNat = n.toNat := by
      rw [UInt64.toNat_toUInt8]
      exact Nat.mod_eq_of_lt small
    simp only [operand, GeneralRegister.ofByte?, low]
    constructor
    · intro done
      split at done
      · rename_i r found
        split at found
        · cases found
          cases done
          exact ⟨rfl, rfl⟩
        · cases found
      · cases done
    · rintro ⟨fits, same⟩
      cases o with
      | register r =>
        have bound : n.toNat < 10 := same ▸ r.isLt
        have named : (⟨n.toNat, bound⟩ : GeneralRegister) = r := Fin.ext same.symm
        rw [dif_pos bound, named]
      | immediate _ => cases fits.1
      | address _ => cases fits.1
  | immediate =>
    simp only [operand]
    constructor
    · intro done
      cases done
      exact ⟨⟨rfl, small⟩, rfl⟩
    · rintro ⟨fits, same⟩
      cases o with
      | immediate k => rw [UInt64.toNat_inj.mp same]
      | register _ => cases fits
      | address _ => cases fits.1
  | address =>
    simp only [operand]
    constructor
    · intro done
      cases done
      exact ⟨⟨rfl, small⟩, rfl⟩
    · rintro ⟨fits, same⟩
      cases o with
      | address k => rw [UInt64.toNat_inj.mp same]
      | register _ => cases fits
      | immediate _ => cases fits.1

def operandAt (code : Bytecode) (address : Nat) (spec : OperandSpec) :
    Except DisasmErrorKind Operand := do
  operand spec.mode (← (code.read spec.width address).mapError .truncated)

theorem operands_cons (code : Bytecode) (address : Nat) (spec : OperandSpec)
    (specs : List OperandSpec) : operands code address (spec :: specs) = (do
      let first ← operandAt code address spec
      let rest ← operands code (address + spec.width.size) specs
      return first :: rest) := by
  rw [operands, operandAt]
  cases code.read spec.width address <;> rfl

theorem operandAt_eq_ok_iff {spec : OperandSpec}
    (narrow : spec.mode = .register → spec.width = .byte) (code : Bytecode) (address : Nat)
    (o : Operand) : operandAt code address spec = .ok o ↔ o.Fits spec ∧
      ∃ rest, code.toList.drop address = toBytes spec.width.size o.value ++ rest := by
  unfold operandAt
  constructor
  · intro done
    cases read : code.read spec.width address with
    | error e =>
      rw [read] at done
      cases done
    | ok n =>
      rw [read] at done
      obtain ⟨small, written⟩ := (code.read_eq_ok_iff spec.width address n).mp read
      obtain ⟨fits, same⟩ := (operand_eq_ok_iff narrow small o).mp done
      exact ⟨fits, same ▸ written⟩
  · rintro ⟨fits, written⟩
    have small : o.value < spec.width.count := fits.value_lt
    have same : (UInt64.ofNat o.value).toNat = o.value := by
      rw [UInt64.toNat_ofNat']
      exact Nat.mod_eq_of_lt (Nat.lt_of_lt_of_le small spec.width.count_le)
    have small' : (UInt64.ofNat o.value).toNat < spec.width.count := by rwa [same]
    have read : code.read spec.width address = .ok (UInt64.ofNat o.value) := by
      apply (code.read_eq_ok_iff spec.width address _).mpr
      rw [same]
      exact ⟨small, written⟩
    rw [read]
    exact (operand_eq_ok_iff narrow small' o).mpr ⟨fits, same.symm⟩

theorem operands_eq_ok_iff {specs : List OperandSpec}
    (narrow : ∀ spec ∈ specs, spec.mode = .register → spec.width = .byte) (code : Bytecode)
    (address : Nat) (os : List Operand) : operands code address specs = .ok os ↔
      List.Forall₂ Operand.Fits os specs ∧
      ∃ rest, code.toList.drop address = Operand.encode specs os ++ rest := by
  induction specs generalizing address os with
  | nil =>
    cases os with
    | nil => exact ⟨fun _ => ⟨.nil, _, rfl⟩, fun _ => rfl⟩
    | cons o os => exact ⟨fun done => (nomatch done), fun accepted => (nomatch accepted.1)⟩
  | cons spec specs ih =>
    obtain ⟨narrow_first, narrow_rest⟩ := List.forall_mem_cons.mp narrow
    have first := operandAt_eq_ok_iff narrow_first code address
    rw [operands_cons]
    constructor
    · intro done
      obtain ⟨o, read, done⟩ := bind_eq_ok.mp done
      obtain ⟨os', reads, done⟩ := bind_eq_ok.mp done
      cases done
      obtain ⟨fits, after, written⟩ := (first o).mp read
      obtain ⟨fit, rest, behind⟩ := (ih narrow_rest _ os').mp reads
      have next := drop_behind written
      rw [length_toBytes, behind] at next
      refine ⟨.cons fits fit, rest, ?_⟩
      rw [written, ← next, Operand.encode, List.append_assoc]
    · rintro ⟨fit, rest, written⟩
      cases fit with
      | @cons o _ os' _ fits fit =>
        rw [Operand.encode, List.append_assoc] at written
        have next := drop_behind written
        rw [length_toBytes] at next
        rw [(first o).mpr ⟨fits, _, written⟩, (ih narrow_rest _ os').mpr ⟨fit, rest, next⟩]
        rfl

end Disassembly

theorem Opcode.ofByte?_byte (op : Opcode) : ofByte? op.byte = some op := by
  cases op <;> rfl

theorem Opcode.byte_of_ofByte? {b : UInt8} {op : Opcode} (found : ofByte? b = some op) :
    op.byte = b := by
  have each : ∀ i : Fin all.length, all[i].byte = UInt8.ofNat i := by decide
  obtain ⟨bound, rfl⟩ := List.getElem?_eq_some_iff.mp found
  exact (each ⟨b.toNat, bound⟩).trans UInt8.ofNat_toNat

def Decoded.bytes (d : Decoded) : List UInt8 :=
  d.op.byte :: Operand.encode d.op.operands d.operands

theorem decodeAt_eq_ok_iff (code : Bytecode) (offset : Nat) (d : Decoded) :
    decodeAt code offset = .ok d ↔ d.offset = offset ∧
      List.Forall₂ Operand.Fits d.operands d.op.operands ∧
      ∃ rest, code.toList.drop offset = d.bytes ++ rest := by
  have narrow := d.op.register_width
  unfold decodeAt
  constructor
  · intro done
    split at done
    · cases done
    · rename_i b read
      obtain ⟨_, after, written⟩ := (code.read_eq_ok_iff .byte offset b).mp read
      split at done
      · cases done
      · rename_i op known
        split at done
        · rename_i os reads
          cases done
          obtain ⟨fit, rest, behind⟩ := (Disassembly.operands_eq_ok_iff narrow code _ os).mp reads
          have next : code.toList.drop (offset + 1) = after := drop_behind written
          refine ⟨rfl, fit, rest, ?_⟩
          rw [written, ← next, behind, Decoded.bytes, Opcode.byte_of_ofByte? known]
          rfl
        · cases done
  · rintro ⟨rfl, fit, rest, written⟩
    have split : code.toList.drop d.offset =
        [d.op.byte] ++ (Operand.encode d.op.operands d.operands ++ rest) := written
    have read : code.read .byte d.offset = .ok d.op.byte.toUInt64 := by
      apply (code.read_eq_ok_iff .byte d.offset _).mpr
      rw [UInt8.toNat_toUInt64]
      refine ⟨d.op.byte.toNat_lt, Operand.encode d.op.operands d.operands ++ rest, ?_⟩
      rw [split, Width.size, toBytes, UInt8.ofNat_toNat]
      rfl
    have reads : Disassembly.operands code (d.offset + 1) d.op.operands = .ok d.operands := by
      apply (Disassembly.operands_eq_ok_iff narrow code _ _).mpr
      exact ⟨fit, rest, drop_behind split⟩
    rw [read]
    dsimp only
    rw [UInt8.toUInt8_toUInt64, Opcode.ofByte?_byte]
    dsimp only
    rw [reads]

theorem Operand.length_encode {os : List Operand} {specs : List OperandSpec}
    (fit : List.Forall₂ Operand.Fits os specs) :
    (encode specs os).length = specs.foldr (fun spec n => spec.width.size + n) 0 := by
  induction fit with
  | nil => rfl
  | cons _ _ ih => rw [encode, List.length_append, length_toBytes, ih, List.foldr_cons]

theorem Decoded.length_bytes {d : Decoded}
    (fit : List.Forall₂ Operand.Fits d.operands d.op.operands) :
    d.bytes.length = d.size := by
  rw [bytes, List.length_cons, Operand.length_encode fit, size, Opcode.size, Nat.add_comm]

/-- Code that can be disassembled is made of its instructions and of nothing else. -/
theorem decodeFrom_bytes {code : Bytecode} {offset : Nat} {ds : List Decoded}
    (accepted : decodeFrom code offset = .ok ds) :
    code.toList.drop offset = ds.flatMap Decoded.bytes ∧
      ∀ d ∈ ds, List.Forall₂ Operand.Fits d.operands d.op.operands := by
  fun_induction decodeFrom code offset generalizing ds with
  | case1 offset inside e failed => cases accepted
  | case2 offset inside d read ih =>
    obtain ⟨_, fit, rest, written⟩ := (decodeAt_eq_ok_iff code offset d).mp read
    cases reads : decodeFrom code (offset + d.size) with
    | error e =>
      rw [reads] at accepted
      cases accepted
    | ok ds' =>
      rw [reads] at accepted
      cases accepted
      obtain ⟨behind, fits⟩ := ih reads
      have next := drop_behind written
      rw [Decoded.length_bytes fit, behind] at next
      refine ⟨?_, List.forall_mem_cons.mpr ⟨fit, fits⟩⟩
      rw [written, ← next, List.flatMap_cons]
  | case3 offset outside =>
    cases accepted
    refine ⟨?_, fun d member => nomatch member⟩
    apply List.drop_eq_nil_of_le
    rw [show code.toList.length = code.size from Array.length_toList]
    exact Nat.le_of_not_lt outside

/-- The bytes in front of the instruction with some index. -/
def offsetAt : List Opcode → Nat → Nat
  | op :: ops, k + 1 => op.size + offsetAt ops k
  | _, _ => 0

theorem offsetAt_succ {ops : List Opcode} {k : Nat} {op : Opcode} (here : ops[k]? = some op) :
    offsetAt ops (k + 1) = offsetAt ops k + op.size := by
  induction ops generalizing k with
  | nil => cases here
  | cons first ops ih =>
    cases k with
    | zero =>
      cases here
      cases ops <;> simp [offsetAt]
    | succ k => rw [offsetAt, ih here, offsetAt, Nat.add_assoc]

theorem offsetAt_le (ops : List Opcode) {k n : Nat} (before : k ≤ n) :
    offsetAt ops k ≤ offsetAt ops n := by
  induction ops generalizing k n with
  | nil => exact Nat.le_refl 0
  | cons op ops ih =>
    cases k with
    | zero => exact Nat.zero_le _
    | succ k =>
      cases n with
      | zero => cases before
      | succ n => exact Nat.add_le_add_left (ih (Nat.le_of_succ_le_succ before)) _

namespace Container

theorem decode_eq_ok_iff (file : List UInt8) (code : Bytecode) :
    decode file = .ok code ↔ file = encode code := by
  unfold decode encode
  constructor
  · intro done
    split at done
    · rename_i begins
      split at done
      · cases done
      · rename_i v bytes behind
        split at done
        · rename_i current
          cases done
          have whole := List.take_append_drop header.length file
          rw [begins, behind, current] at whole
          exact whole.symm
        · cases done
    · cases done
  · rintro rfl
    rw [if_pos List.take_left, List.drop_left]
    dsimp only
    rw [if_pos rfl]
    rfl

end Container

end ScriptKit
