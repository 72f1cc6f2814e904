import ScriptKit.Machine.Registers
import ScriptKit.Proofs.Text.Numeral

/-! Every dump of the registers has the same size, whatever they hold. -/

namespace ScriptKit

theorem utf8ByteSize_ofList {text : List Char} (ascii : ∀ c ∈ text, c.utf8Size = 1) :
    (String.ofList text).utf8ByteSize = text.length := by
  induction text with
  | nil => rfl
  | cons c text ih =>
    obtain ⟨first, others⟩ := List.forall_mem_cons.mp ascii
    rw [String.ofList_cons, String.utf8ByteSize_append, String.utf8ByteSize_singleton, first,
      ih others, List.length_cons, Nat.add_comm]

theorem utf8ByteSize_hex {width n : Nat} (fits : n < Text.room 16 (width + 1)) :
    (Text.hex (width + 1) n).utf8ByteSize = width + 3 := by
  have digits : ∀ d < 16, d.digitChar.utf8Size = 1 := by decide
  have ascii : ∀ c ∈ Text.hexDigits (width + 1) n, c.utf8Size = 1 := by
    intro c member
    rcases List.mem_append.mp member with filled | digit
    · rw [List.eq_of_mem_replicate filled]
      rfl
    · obtain ⟨d, small, rfl⟩ := Text.mem_toDigits (by decide) digit
      exact digits d small
  rw [Text.hex, String.utf8ByteSize_append, utf8ByteSize_ofList ascii, Text.length_hexDigits fits]
  have mark : "0x".utf8ByteSize = 2 := by decide
  omega

namespace Registers

def dumpSize : Nat := 294

theorem utf8ByteSize_column (rs : Registers) (r : Register) :
    (rs.column r).utf8ByteSize = if r.index % 2 = 1 then 23 else 26 := by
  have name : (String.ofList (Text.padRight 3 r.name.toList)).utf8ByteSize = 3 := by
    cases r with
    | general i =>
      revert i
      decide
    | ip | is => decide
  have blank : " ".utf8ByteSize = 1 := by decide
  have value : (Text.hex 16 (rs.get r).toNat).utf8ByteSize = 18 :=
    utf8ByteSize_hex (rs.get r).toNat_lt
  simp only [column, String.utf8ByteSize_append, name, blank, value]
  split <;> decide

theorem utf8ByteSize_join (texts : List String) :
    (String.join texts).utf8ByteSize = texts.foldr (fun text n => text.utf8ByteSize + n) 0 := by
  induction texts with
  | nil => rfl
  | cons text texts ih => rw [String.join_cons, String.utf8ByteSize_append, ih, List.foldr_cons]

theorem utf8ByteSize_dump (rs : Registers) : rs.dump.utf8ByteSize = dumpSize := by
  simp only [dump, utf8ByteSize_join, List.foldr_map, utf8ByteSize_column]
  decide

end Registers

end ScriptKit
