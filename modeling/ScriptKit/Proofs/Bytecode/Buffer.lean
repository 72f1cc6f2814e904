import Mathlib.Data.Nat.Digits.Defs
import ScriptKit.Proofs.Assembly.Validity

/-! Numbers written to code are read back.

Every read has one meaning, the number that the bytes at its address make. So reads of different
widths agree wherever they overlap, and what is appended later changes none of them. -/

namespace ScriptKit

def Width.cut (width : Width) (n : UInt64) : UInt64 :=
  UInt64.ofNat (n.toNat % width.count)

theorem Width.toNat_cut (width : Width) (n : UInt64) :
    (width.cut n).toNat = n.toNat % width.count :=
  UInt64.toNat_ofNat_of_lt' (Nat.lt_of_le_of_lt (Nat.mod_le ..) n.toNat_lt)

theorem Width.count_eq_pow (width : Width) : width.count = 256 ^ width.size := by
  cases width <;> rfl

section Numbers

theorem ofBytes_append (front back : List UInt8) :
    ofBytes (front ++ back) = ofBytes front + 256 ^ front.length * ofBytes back := by
  simp only [ofBytes_eq_ofDigits, List.map_append, Nat.ofDigits_append, List.length_map]

theorem ofBytes_drop (count : Nat) (bytes : List UInt8) :
    ofBytes (bytes.drop count) = ofBytes bytes / 256 ^ count := by
  have small : ∀ d ∈ bytes.map UInt8.toNat, d < 256 := List.forall_mem_map.mpr fun b _ => b.toNat_lt
  rw [ofBytes_eq_ofDigits, ofBytes_eq_ofDigits,
    Nat.ofDigits_div_pow_eq_ofDigits_drop count (by decide) _ small, List.map_drop]

theorem ofBytes_take (count : Nat) (bytes : List UInt8) :
    ofBytes (bytes.take count) = ofBytes bytes % 256 ^ count := by
  have small : ∀ d ∈ bytes.map UInt8.toNat, d < 256 := List.forall_mem_map.mpr fun b _ => b.toNat_lt
  rw [ofBytes_eq_ofDigits, ofBytes_eq_ofDigits,
    Nat.ofDigits_mod_pow_eq_ofDigits_take count (by decide) _ small, List.map_take]

theorem ofBytes_toBytes_mod (count n : Nat) : ofBytes (toBytes count n) = n % 256 ^ count := by
  induction count generalizing n with
  | zero => simp [toBytes, ofBytes, Nat.mod_one]
  | succ count ih =>
    have digits : n % 256 ^ (count + 1) = n % 256 + 256 * (n / 256 % 256 ^ count) := by
      rw [Nat.pow_succ', Nat.mod_mul]
    rw [toBytes, ofBytes, ih, UInt8.toNat_ofNat', digits]

end Numbers

namespace Bytecode

def pushAll (code : Bytecode) (pushes : List (Width × UInt64)) : Bytecode :=
  pushes.foldl (fun code p => code.push p.1 p.2) code

def readEach (code : Bytecode) : List Width → Nat → Except OutOfBounds (List UInt64)
  | [], _ => .ok []
  | width :: widths, address => do
    let n ← code.read width address
    let ns ← code.readEach widths (address + width.size)
    return n :: ns

def combine : List Width → List UInt64 → Nat
  | width :: widths, n :: ns => n.toNat + width.count * combine widths ns
  | _, _ => 0

def total (widths : List Width) : Nat :=
  (widths.map Width.size).sum

/-- What a read gives, whatever else is read and whatever was written before. -/
structure Exact (code : Bytecode) (width : Width) (address : Nat) : Prop where
  found : (∃ n, code.read width address = .ok n) ↔ address + width.size ≤ code.size
  lost : ∀ e, code.read width address = .error e → e = ⟨address, width.size, code.size⟩
  /-- Numbers that lie side by side make up the number that they cover. -/
  combined : ∀ parts, total parts = width.size → ∀ n, code.read width address = .ok n ↔
    ∃ ns, code.readEach parts address = .ok ns ∧ n.toNat = combine parts ns
  /-- A number inside of another one is a part of it, wherever it begins. -/
  within : ∀ n, code.read width address = .ok n → ∀ narrow d, d + narrow.size ≤ width.size →
    code.read narrow (address + d) = .ok (narrow.cut (UInt64.ofNat (n.toNat / 256 ^ d)))

structure Guarded (code : Bytecode) (width : Width) (address : UInt64) : Prop where
  found : (∃ n, code.get width address = .ok n) ↔
    address.toNat + width.size < UInt64.size ∧ address.toNat + width.size ≤ code.size
  lost : ∀ e, code.get width address = .error e → e = ⟨address.toNat, width.size, code.size⟩
  value : ∀ n, code.get width address = .ok n → code.read width address.toNat = .ok n
  /-- In code that has addresses the end of what lies inside is one of them. -/
  addressed : code.size < UInt64.size → code.get width address = code.read width address.toNat

def valueAt (code : Bytecode) (address count : Nat) : Nat :=
  ofBytes ((code.toList.drop address).take count)

section Reading

variable {code : Bytecode} {width : Width} {address : Nat} {n : UInt64}

theorem length_valueAt {count : Nat} (inside : address + count ≤ code.size) :
    ((code.toList.drop address).take count).length = count := by
  rw [List.length_take, List.length_drop, length_toList]
  omega

theorem read_inside (inside : address + width.size ≤ code.size) :
    ∃ n, code.read width address = .ok n ∧ n.toNat = code.valueAt address width.size := by
  have fits := ofBytes_lt ((code.toList.drop address).take width.size)
  rw [length_valueAt inside, ← Width.count_eq] at fits
  have same : (UInt64.ofNat (code.valueAt address width.size)).toNat =
      code.valueAt address width.size :=
    UInt64.toNat_ofNat_of_lt' (Nat.lt_of_lt_of_le fits width.count_le)
  refine ⟨_, (code.read_eq_ok_iff width address _).mpr
    ⟨?_, (code.toList.drop address).drop width.size, ?_⟩, same⟩
  · rw [same]
    exact fits
  · have back := toBytes_ofBytes ((code.toList.drop address).take width.size)
    rw [length_valueAt inside] at back
    rw [same, valueAt, back, List.take_append_drop]

theorem inside_of_read (read : code.read width address = .ok n) :
    address + width.size ≤ code.size := by
  by_contra outside
  have failed : code.read width address = .error ⟨address, width.size, code.size⟩ := if_neg outside
  rw [read] at failed
  cases failed

theorem toNat_of_read (read : code.read width address = .ok n) :
    n.toNat = code.valueAt address width.size := by
  obtain ⟨_, found, value⟩ := read_inside (inside_of_read read)
  rw [read] at found
  cases found
  exact value

theorem read_iff : code.read width address = .ok n ↔
    address + width.size ≤ code.size ∧ n.toNat = code.valueAt address width.size := by
  refine ⟨fun read => ⟨inside_of_read read, toNat_of_read read⟩, fun ⟨inside, value⟩ => ?_⟩
  obtain ⟨m, found, same⟩ := read_inside inside
  rwa [UInt64.toNat_inj.mp (value.trans same.symm)]

theorem valueAt_add (address front back : Nat) (inside : address + front ≤ code.size) :
    code.valueAt address (front + back) =
      code.valueAt address front + 256 ^ front * code.valueAt (address + front) back := by
  rw [valueAt, List.take_add, ofBytes_append, length_valueAt inside, List.drop_drop]
  rfl

theorem valueAt_within (address : Nat) {d count outer : Nat} (inside : d + count ≤ outer) :
    code.valueAt (address + d) count = code.valueAt address outer / 256 ^ d % 256 ^ count := by
  rw [valueAt, valueAt, ← ofBytes_drop, ← ofBytes_take, List.drop_take, List.take_take,
    List.drop_drop, Nat.min_eq_left (by omega)]

theorem total_cons (width : Width) (widths : List Width) :
    total (width :: widths) = width.size + total widths :=
  List.sum_cons

/-- Numbers side by side are found if the last of them lies inside. -/
theorem readEach_inside (widths : List Width) (inside : address + total widths ≤ code.size) :
    ∃ ns, code.readEach widths address = .ok ns ∧
      combine widths ns = code.valueAt address (total widths) := by
  induction widths generalizing address with
  | nil => exact ⟨[], rfl, by simp [combine, total, valueAt, ofBytes]⟩
  | cons width widths ih =>
    rw [total_cons] at inside ⊢
    have front : address + width.size ≤ code.size := by omega
    obtain ⟨n, first, value⟩ := read_inside front
    obtain ⟨ns, others, rest⟩ := @ih (address + width.size) (by omega)
    refine ⟨n :: ns, by rw [readEach, first, others]; rfl, ?_⟩
    rw [combine, rest, value, valueAt_add _ _ _ front, width.count_eq_pow]

theorem inside_of_readEach {widths : List Width} {ns : List UInt64} (some_width : widths ≠ [])
    (read : code.readEach widths address = .ok ns) : address + total widths ≤ code.size := by
  induction widths generalizing address ns with
  | nil => exact absurd rfl some_width
  | cons width widths ih =>
    obtain ⟨n, first, rest⟩ := bind_eq_ok.mp read
    obtain ⟨ms, others, -⟩ := bind_eq_ok.mp rest
    have front := inside_of_read first
    rw [total_cons]
    cases widths with
    | nil => exact front
    | cons next widths =>
      have behind := ih (by simp) others
      omega

theorem read_exact (code : Bytecode) (width : Width) (address : Nat) :
    code.Exact width address := by
  constructor
  case found =>
    refine ⟨fun ⟨n, read⟩ => inside_of_read read, fun inside => ?_⟩
    obtain ⟨n, read, -⟩ := read_inside inside
    exact ⟨n, read⟩
  case lost => exact fun e failed => ((code.read_eq_error_iff width address e).mp failed).2
  case combined =>
    intro parts whole n
    have some_part : parts ≠ [] := by
      rintro rfl
      have := width.size_pos
      simp only [total, List.map_nil, List.sum_nil] at whole
      omega
    rw [read_iff, ← whole]
    constructor
    · rintro ⟨inside, value⟩
      obtain ⟨ns, each, sum⟩ := readEach_inside parts inside
      exact ⟨ns, each, value.trans sum.symm⟩
    · rintro ⟨ns, each, value⟩
      have inside := inside_of_readEach some_part each
      obtain ⟨_, each', sum⟩ := readEach_inside parts inside
      rw [each] at each'
      cases each'
      exact ⟨inside, value.trans sum⟩
  case within =>
    intro n read narrow d inside
    have bounded := inside_of_read read
    refine read_iff.mpr ⟨by omega, ?_⟩
    have small : n.toNat / 256 ^ d < UInt64.size :=
      Nat.lt_of_le_of_lt (Nat.div_le_self ..) n.toNat_lt
    rw [Width.toNat_cut, UInt64.toNat_ofNat_of_lt' small, valueAt_within _ inside,
      ← toNat_of_read read, narrow.count_eq_pow]

/-- A sum wraps around just if it is too large. -/
theorem checkedAdd?_eq (a b : UInt64) :
    checkedAdd? a b = if a.toNat + b.toNat < UInt64.size then some (a + b) else none := by
  have sum : (a + b).toNat = (a.toNat + b.toNat) % UInt64.size := UInt64.toNat_add a b
  have small : a.toNat < UInt64.size := a.toNat_lt
  have small' : b.toNat < UInt64.size := b.toNat_lt
  have grows : a ≤ a + b ↔ a.toNat + b.toNat < UInt64.size := by
    rw [UInt64.le_iff_toNat_le, sum]
    constructor
    · intro grown
      by_contra large
      rw [Nat.mod_eq_sub_mod (by omega), Nat.mod_eq_of_lt (by omega)] at grown
      omega
    · intro fits
      rw [Nat.mod_eq_of_lt fits]
      exact Nat.le_add_right ..
  simp only [checkedAdd?, grows]

theorem get_eq (code : Bytecode) (width : Width) (address : UInt64) :
    code.get width address =
      if address.toNat + width.size < UInt64.size then code.read width address.toNat
      else .error ⟨address.toNat, width.size, code.size⟩ := by
  have width_fits : (UInt64.ofNat width.size).toNat = width.size := by
    cases width <;> rfl
  unfold get
  rw [checkedAdd?_eq, width_fits]
  by_cases fits : address.toNat + width.size < UInt64.size
  · rw [if_pos fits, if_pos fits]
    have stop : (address + UInt64.ofNat width.size).toNat = address.toNat + width.size := by
      rw [UInt64.toNat_add, width_fits]
      exact Nat.mod_eq_of_lt fits
    dsimp only
    rw [stop]
    rfl
  · rw [if_neg fits, if_neg fits]

theorem get_guarded (code : Bytecode) (width : Width) (address : UInt64) :
    code.Guarded width address := by
  have exact := code.read_exact width address.toNat
  have guard := code.get_eq width address
  by_cases fits : address.toNat + width.size < UInt64.size
  · rw [if_pos fits] at guard
    constructor
    case found => simp only [guard, exact.found, fits, true_and]
    case lost => exact fun e failed => exact.lost e (guard ▸ failed)
    case value => exact fun n read => guard ▸ read
    case addressed => exact fun _ => guard
  · rw [if_neg fits] at guard
    constructor
    case found => simp [guard, fits]
    case lost =>
      intro e failed
      rw [guard] at failed
      exact (Except.error.inj failed).symm
    case value =>
      intro n read
      rw [guard] at read
      cases read
    case addressed =>
      intro small
      have outside : ¬ address.toNat + width.size ≤ code.size := by omega
      exact guard.trans (if_neg outside).symm

end Reading

section Writing

variable {code : Bytecode}

theorem toList_push (code : Bytecode) (width : Width) (n : UInt64) :
    (code.push width n).toList = code.toList ++ toBytes width.size n.toNat := by
  simp [push, toList]

/-- Numbers are appended, and nothing else changes. -/
theorem toList_pushAll (code : Bytecode) (pushes : List (Width × UInt64)) :
    ∃ bytes, (code.pushAll pushes).toList = code.toList ++ bytes := by
  induction pushes generalizing code with
  | nil => exact ⟨[], (List.append_nil _).symm⟩
  | cons p pushes ih =>
    obtain ⟨bytes, rest⟩ := ih (code.push p.1 p.2)
    refine ⟨toBytes p.1.size p.2.toNat ++ bytes, ?_⟩
    rw [← List.append_assoc, ← toList_push]
    exact rest

/-- A number just appended is found, whatever comes behind it. -/
theorem read_pushed (code : Bytecode) (width : Width) (n : UInt64) (later : List (Width × UInt64)) :
    ((code.push width n).pushAll later).read width code.size = .ok (width.cut n) := by
  obtain ⟨bytes, rest⟩ := toList_pushAll (code.push width n) later
  rw [toList_push, List.append_assoc] at rest
  refine read_iff.mpr ⟨?_, ?_⟩
  · rw [← length_toList, ← length_toList, rest]
    simp only [List.length_append, length_toBytes]
    omega
  · rw [valueAt, rest, List.drop_left' code.length_toList, List.take_left' (length_toBytes ..),
      ofBytes_toBytes_mod, Width.toNat_cut, width.count_eq_pow]

end Writing

/-- Code with any contents to which any numbers are appended: each of them is read back where it was
written, and every read, at any address and of any width, is exact. At an address of 64 bits a read
fails in the same way if its end is no such address. -/
theorem buffer_exact (start : Bytecode) :
    (∀ earlier width n later,
      (start.pushAll (earlier ++ (width, n) :: later)).read width (start.pushAll earlier).size =
      .ok (width.cut n)) ∧
    (∀ pushes width address, (start.pushAll pushes).Exact width address) ∧
    ∀ pushes width address, (start.pushAll pushes).Guarded width address := by
  refine ⟨fun earlier width n later => ?_, fun pushes width address => read_exact _ width address,
    fun pushes width address => get_guarded _ width address⟩
  have split : start.pushAll (earlier ++ (width, n) :: later) =
      ((start.pushAll earlier).push width n).pushAll later := by
    rw [pushAll, List.foldl_append]
    rfl
  rw [split, read_pushed]

end Bytecode

end ScriptKit
