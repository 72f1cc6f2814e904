import ScriptKit.Text.Numeral

/-! Numerals read back as the numbers they were written for. -/

namespace ScriptKit.Text

theorem digitValue?_digitChar {d : Nat} (digit : d < 16) : digitValue? d.digitChar = some d := by
  revert d
  decide

def readFrom? (base : Nat) (n : Nat) (digits : List Char) : Option Nat :=
  digits.foldlM (fun n c => do
    let d ← digitValue? c
    if d < base then some (n * base + d) else none) n

theorem readNat?_eq (base : Nat) {digits : List Char} (some_digits : digits ≠ []) :
    readNat? base digits = readFrom? base 0 digits := by
  cases digits with
  | nil => exact absurd rfl some_digits
  | cons c cs => rfl

theorem readFrom?_digit {base n d : Nat} (digit : d < base) (small : base ≤ 16) :
    readFrom? base n [d.digitChar] = some (n * base + d) := by
  have value := digitValue?_digitChar (Nat.lt_of_lt_of_le digit small)
  simp [readFrom?, value, digit]

theorem readFrom?_append (base n : Nat) (front back : List Char) :
    readFrom? base n (front ++ back) = (readFrom? base n front).bind (readFrom? base · back) :=
  List.foldlM_append

theorem readFrom?_toDigits {base : Nat} (large : 1 < base) (small : base ≤ 16) (n : Nat) :
    readFrom? base 0 (Nat.toDigits base n) = some n := by
  induction n using Nat.strongRecOn with
  | ind n ih =>
    by_cases single : n < base
    · rw [Nat.toDigits_of_lt_base single, readFrom?_digit single small, Nat.zero_mul, Nat.zero_add]
    · have many : base ≤ n := Nat.le_of_not_lt single
      have front := ih (n / base) (Nat.div_lt_self (by omega) large)
      rw [Nat.toDigits_of_base_le large many, readFrom?_append, front, Option.bind_some,
        readFrom?_digit (Nat.mod_lt n (by omega)) small, Nat.div_add_mod']

theorem readNat?_toDigits {base : Nat} (large : 1 < base) (small : base ≤ 16) (n : Nat) :
    readNat? base (Nat.toDigits base n) = some n := by
  rw [readNat?_eq base Nat.toDigits_ne_nil, readFrom?_toDigits large small]

theorem mem_toDigits {base : Nat} (large : 1 < base) {n : Nat} {c : Char}
    (member : c ∈ Nat.toDigits base n) : ∃ d < base, c = d.digitChar := by
  induction n using Nat.strongRecOn with
  | ind n ih =>
    by_cases single : n < base
    · rw [Nat.toDigits_of_lt_base single] at member
      exact ⟨n, single, List.mem_singleton.mp member⟩
    · have many : base ≤ n := Nat.le_of_not_lt single
      rw [Nat.toDigits_of_base_le large many] at member
      rcases List.mem_append.mp member with front | last
      · exact ih (n / base) (Nat.div_lt_self (by omega) large) front
      · exact ⟨n % base, Nat.mod_lt n (by omega), List.mem_singleton.mp last⟩

theorem readInt?_unsigned {digits : List Char} (minus : '-' ∉ digits) (plus : '+' ∉ digits) :
    readInt? digits = (readNat? 10 digits).map Int.ofNat := by
  unfold readInt?
  split
  · exact absurd List.mem_cons_self minus
  · exact absurd List.mem_cons_self plus
  · rfl

theorem readInt?_toDigits (n : Nat) : readInt? (Nat.toDigits 10 n) = some (Int.ofNat n) := by
  have unsigned : ∀ c, (∀ d < 10, c ≠ d.digitChar) → c ∉ Nat.toDigits 10 n := by
    intro c other member
    obtain ⟨d, digit, same⟩ := mem_toDigits (by decide) member
    exact other d digit same
  rw [readInt?_unsigned (unsigned '-' (by decide)) (unsigned '+' (by decide)),
    readNat?_toDigits (by decide) (by decide)]
  rfl

def room (base : Nat) : Nat → Nat
  | 0 => 1
  | count + 1 => base * room base count

theorem length_toDigits_le {base : Nat} (large : 1 < base) {count n : Nat}
    (fits : n < room base (count + 1)) : (Nat.toDigits base n).length ≤ count + 1 := by
  induction count generalizing n with
  | zero =>
    have single : n < base := by simpa [room] using fits
    simp [Nat.toDigits_of_lt_base single]
  | succ count ih =>
    by_cases single : n < base
    · simp [Nat.toDigits_of_lt_base single]
    · have many : base ≤ n := Nat.le_of_not_lt single
      have front : n / base < room base (count + 1) := Nat.div_lt_of_lt_mul fits
      rw [Nat.toDigits_of_base_le large many, List.length_append, List.length_singleton]
      have := ih front
      omega

theorem length_hexDigits {width n : Nat} (fits : n < room 16 (width + 1)) :
    (hexDigits (width + 1) n).length = width + 1 := by
  have short := length_toDigits_le (show 1 < 16 by decide) fits
  rw [hexDigits, padLeft, List.length_append, List.length_replicate]
  omega

theorem hexDigits_one (n : Nat) : hexDigits 1 n = Nat.toDigits 16 n := by
  have some_digit : 0 < (Nat.toDigits 16 n).length :=
    List.length_pos_iff.mpr Nat.toDigits_ne_nil
  have full : 1 - (Nat.toDigits 16 n).length = 0 := by omega
  rw [hexDigits, padLeft, full, List.replicate_zero, List.nil_append]

end ScriptKit.Text
