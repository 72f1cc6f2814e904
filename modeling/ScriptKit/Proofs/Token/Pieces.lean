import ScriptKit.Token.Lexeme

/-! What a text can be cut into, without regard to how it is cut.

A piece is a blank, a comment or a token. A string and a block comment may also lack their end. From
the front of a text the longest piece is taken, then the longest one from what remains, and so on.
There is only one way to do so. -/

namespace ScriptKit

namespace TokenKind

theorem operator?_eq_some_iff {c d : Char} {kind : TokenKind} :
    operator? c d = some kind ↔ kind.isKeyword = false ∧ kind.describe.toList = [c, d] := by
  constructor
  · intro found
    unfold operator? at found
    split at found <;> cases found <;> decide
  · rintro ⟨sign, same⟩
    cases kind <;> first | (cases same; rfl) | (cases same; done) | cases sign

theorem punctuation?_eq_some_iff {c : Char} {kind : TokenKind} :
    punctuation? c = some kind ↔ kind.describe.toList = [c] := by
  constructor
  · intro found
    unfold punctuation? at found
    split at found <;> cases found <;> decide
  · intro same
    cases kind <;> first | (cases same; rfl) | cases same

theorem keyword?_eq_some_iff {word : String} {kind : TokenKind} :
    keyword? word = some kind ↔ kind.isKeyword = true ∧ kind.describe = word := by
  constructor
  · intro found
    unfold keyword? at found
    split at found <;> cases found <;> decide
  · rintro ⟨reserved, rfl⟩
    cases kind <;> first | rfl | cases reserved

theorem isIdentifier_describe {kind : TokenKind} (reserved : kind.isKeyword = true) :
    isIdentifier kind.describe.toList = true := by
  cases kind <;> first | decide | cases reserved

end TokenKind

inductive Piece where
  | blank
  | comment
  | token (kind : TokenKind) (text : List Char)
  | openString
  | openComment

inductive Opening where
  | blank | mark | quote | digit | letter

namespace Opening

def Has : Opening → Char → Prop
  | blank, c => isBlank c = true
  | mark, c => (TokenKind.punctuation? c).isSome = true
  | quote, c => c = '"' ∨ c = '\''
  | digit, c => c.isDigit = true
  | letter, c => isLetter c = true

def Codes : Opening → Nat → Prop
  | blank, n => n ≤ 32
  | mark, n =>
    n = 33 ∨ n = 37 ∨ 40 ≤ n ∧ n ≤ 47 ∨ 59 ≤ n ∧ n ≤ 62 ∨ n = 91 ∨ n = 93 ∨ n = 123 ∨ n = 125
  | quote, n => n = 34 ∨ n = 39
  | digit, n => 48 ≤ n ∧ n ≤ 57
  | letter, n => 65 ≤ n ∧ n ≤ 90 ∨ n = 95 ∨ 97 ≤ n ∧ n ≤ 122

variable {o o' : Opening} {c : Char}

theorem Has.code (has : o.Has c) : o.Codes c.toNat := by
  cases o with
  | blank =>
    simp only [Has, isBlank, Bool.or_eq_true, decide_eq_true_eq] at has
    rcases has with (((rfl | rfl) | rfl) | rfl) | rfl <;> simp [Codes]
  | mark =>
    simp only [Has] at has
    unfold TokenKind.punctuation? at has
    split at has <;> simp_all [Codes]
  | quote => rcases has with rfl | rfl <;> simp [Codes]
  | digit => simpa [Has, Char.isDigit, Codes, UInt32.le_iff_toNat_le] using has
  | letter =>
    rcases isLetter_iff.mp has with (upper | lower) | rfl
    · exact .inl upper
    · exact .inr (.inr lower)
    · exact .inr (.inl rfl)

/-- The first character tells apart what begins with it. -/
theorem Has.unique (has : o.Has c) (has' : o'.Has c) : o = o' := by
  have code := has.code
  have code' := has'.code
  cases o <;> cases o' <;> first | rfl | (simp only [Codes] at code code'; omega)

theorem mark_of_operator? {d : Char} {kind : TokenKind}
    (found : TokenKind.operator? c d = some kind) :
    mark.Has c := by
  unfold TokenKind.operator? at found
  split at found <;> first | rfl | cases found

theorem mark_of_punctuation? {kind : TokenKind} (found : TokenKind.punctuation? c = some kind) :
    mark.Has c := by
  simp only [Has, found, Option.isSome_some]

end Opening

namespace Piece

/-- Only a string or a block comment can lack its end. -/
def IsWhole : Piece → Prop
  | openString | openComment => False
  | blank | comment | token .. => True

def IsTrivia : Piece → Prop
  | blank | comment => True
  | openString | openComment | token .. => False

/-- The characters that spell a piece. Operators and reserved words are spelled as messages call
them. -/
inductive Spelled : Piece → List Char → Prop where
  | blank {c : Char} : isBlank c = true → Spelled blank [c]
  | line {cs : List Char} : (∀ c ∈ cs, c ≠ '\n' ∧ c ≠ '\r') → Spelled comment ('/' :: '/' :: cs)
  /-- The first `*/` behind the opening is the end. -/
  | block {cs : List Char} : ¬ ['*', '/'] <:+: cs ++ ['*'] →
      Spelled comment ('/' :: '*' :: (cs ++ ['*', '/']))
  | openComment {cs : List Char} : ¬ ['*', '/'] <:+: cs → Spelled openComment ('/' :: '*' :: cs)
  | pair {c d : Char} {kind : TokenKind} : kind.isKeyword = false → kind.describe.toList = [c, d] →
      Spelled (token kind [c, d]) [c, d]
  | single {c : Char} {kind : TokenKind} : kind.describe.toList = [c] → Spelled (token kind [c]) [c]
  | string {c : Char} {cs : List Char} : c = '"' ∨ c = '\'' → c ∉ cs →
      Spelled (token .text cs) (c :: (cs ++ [c]))
  | openString {c : Char} {cs : List Char} : c = '"' ∨ c = '\'' → c ∉ cs →
      Spelled openString (c :: cs)
  | number {c : Char} {cs : List Char} : (∀ d ∈ c :: cs, d.isDigit = true) →
      Spelled (token .integer (c :: cs)) (c :: cs)
  | keyword {kind : TokenKind} : kind.isKeyword = true →
      Spelled (token kind kind.describe.toList) kind.describe.toList
  | name {cs : List Char} : isIdentifier cs = true →
      (∀ kind : TokenKind, kind.isKeyword = true → kind.describe.toList ≠ cs) →
      Spelled (token .identifier cs) cs

/-- The longest piece at the front of `taken ++ rest` is spelled by `taken`. -/
structure Longest (p : Piece) (taken rest : List Char) : Prop where
  spelled : p.Spelled taken
  longest : ∀ q other, Spelled q other → other <+: taken ++ rest → other.length ≤ taken.length

section Shapes

variable {p q : Piece} {o : Opening} {c : Char} {cs taken rest : List Char}

theorem spelled_pair {d : Char} {kind : TokenKind} (found : TokenKind.operator? c d = some kind) :
    (Piece.token kind [c, d]).Spelled [c, d] := by
  obtain ⟨sign, same⟩ := TokenKind.operator?_eq_some_iff.mp found
  exact .pair sign same

theorem spelled_single {kind : TokenKind} (found : TokenKind.punctuation? c = some kind) :
    (Piece.token kind [c]).Spelled [c] :=
  .single (TokenKind.punctuation?_eq_some_iff.mp found)

theorem spelled_word (name : isIdentifier cs = true) :
    (Piece.token ((TokenKind.keyword? (String.ofList cs)).getD .identifier) cs).Spelled cs := by
  cases found : TokenKind.keyword? (String.ofList cs) with
  | some kind =>
    obtain ⟨reserved, same⟩ := TokenKind.keyword?_eq_some_iff.mp found
    obtain rfl : cs = kind.describe.toList := by rw [same, String.toList_ofList]
    exact .keyword reserved
  | none =>
    refine .name name fun kind reserved same => ?_
    have known : TokenKind.keyword? (String.ofList cs) = some kind :=
      TokenKind.keyword?_eq_some_iff.mpr ⟨reserved, by rw [← same, String.ofList_toList]⟩
    rw [found] at known
    cases known

/-- What a piece is, by what it begins with. -/
def Shape (p : Piece) (c : Char) (cs : List Char) : Opening → Prop
  | .blank => p = .blank ∧ cs = []
  | .mark =>
    (∃ kind, TokenKind.punctuation? c = some kind ∧ p = .token kind [c] ∧ cs = []) ∨
    (∃ d kind, TokenKind.operator? c d = some kind ∧ p = .token kind [c, d] ∧ cs = [d]) ∨
    (c = '/' ∧ p = .comment ∧ ∃ body, cs = '/' :: body ∧ ∀ d ∈ body, d ≠ '\n' ∧ d ≠ '\r') ∨
    (c = '/' ∧ p = .comment ∧ ∃ body, cs = '*' :: (body ++ ['*', '/']) ∧
      ¬ ['*', '/'] <:+: body ++ ['*']) ∨
    (c = '/' ∧ p = .openComment ∧ ∃ body, cs = '*' :: body ∧ ¬ ['*', '/'] <:+: body)
  | .quote =>
    (∃ body, p = .token .text body ∧ cs = body ++ [c] ∧ c ∉ body) ∨ (p = .openString ∧ c ∉ cs)
  | .digit => p = .token .integer (c :: cs) ∧ ∀ d ∈ cs, d.isDigit = true
  | .letter =>
    p = .token ((TokenKind.keyword? (String.ofList (c :: cs))).getD .identifier) (c :: cs) ∧
      ∀ d ∈ cs, isLetterOrDigit d = true

theorem exists_shape_word {kind : TokenKind} (name : isIdentifier cs = true)
    (known : kind = (TokenKind.keyword? (String.ofList cs)).getD .identifier) :
    ∃ o d ds, cs = d :: ds ∧ Opening.Has o d ∧ Shape (.token kind cs) d ds o := by
  cases cs with
  | nil => cases name
  | cons d ds =>
    obtain ⟨first, others⟩ := Bool.and_eq_true_iff.mp name
    refine ⟨.letter, d, ds, rfl, first, ?_, List.all_eq_true.mp others⟩
    rw [known]

theorem Spelled.exists_shape (spelled : p.Spelled taken) :
    ∃ o c cs, taken = c :: cs ∧ Opening.Has o c ∧ Shape p c cs o := by
  cases spelled with
  | blank blank => exact ⟨.blank, _, _, rfl, blank, rfl, rfl⟩
  | line body => exact ⟨.mark, _, _, rfl, rfl, .inr (.inr (.inl ⟨rfl, rfl, _, rfl, body⟩))⟩
  | block body => exact ⟨.mark, _, _, rfl, rfl, .inr (.inr (.inr (.inl ⟨rfl, rfl, _, rfl, body⟩)))⟩
  | openComment body =>
    exact ⟨.mark, _, _, rfl, rfl, .inr (.inr (.inr (.inr ⟨rfl, rfl, _, rfl, body⟩)))⟩
  | pair sign same =>
    have found := TokenKind.operator?_eq_some_iff.mpr ⟨sign, same⟩
    exact ⟨.mark, _, _, rfl, Opening.mark_of_operator? found, .inr (.inl ⟨_, _, found, rfl, rfl⟩)⟩
  | single same =>
    have found := TokenKind.punctuation?_eq_some_iff.mpr same
    exact ⟨.mark, _, _, rfl, Opening.mark_of_punctuation? found, .inl ⟨_, found, rfl, rfl⟩⟩
  | string quote inside => exact ⟨.quote, _, _, rfl, quote, .inl ⟨_, rfl, rfl, inside⟩⟩
  | openString quote inside => exact ⟨.quote, _, _, rfl, quote, .inr ⟨rfl, inside⟩⟩
  | number digits =>
    obtain ⟨first, others⟩ := List.forall_mem_cons.mp digits
    exact ⟨.digit, _, _, rfl, first, rfl, others⟩
  | @keyword kind reserved =>
    have known : TokenKind.keyword? (String.ofList kind.describe.toList) = some kind :=
      TokenKind.keyword?_eq_some_iff.mpr ⟨reserved, String.ofList_toList.symm⟩
    exact exists_shape_word (TokenKind.isIdentifier_describe reserved) (by rw [known]; rfl)
  | name name free =>
    have unknown : TokenKind.keyword? (String.ofList taken) = none := by
      apply Option.eq_none_iff_forall_ne_some.mpr
      intro kind known
      obtain ⟨reserved, same⟩ := TokenKind.keyword?_eq_some_iff.mp known
      exact free kind reserved (by rw [same, String.toList_ofList])
    exact exists_shape_word name (by rw [unknown]; rfl)

theorem Spelled.shape (spelled : p.Spelled (c :: cs)) (has : o.Has c) : Shape p c cs o := by
  obtain ⟨o', c', cs', same, has', shape⟩ := spelled.exists_shape
  cases same
  cases has.unique has'
  exact shape

theorem Spelled.ne_nil (spelled : p.Spelled taken) : taken ≠ [] := by
  obtain ⟨_, _, _, rfl, -⟩ := spelled.exists_shape
  exact List.cons_ne_nil _ _

theorem operator?_slash {d : Char} {kind : TokenKind} : TokenKind.operator? '/' d ≠ some kind := by
  unfold TokenKind.operator?
  split <;> simp_all

theorem infix_close (body : List Char) : ['*', '/'] <:+: body ++ ['*', '/'] :=
  (List.suffix_append body _).isInfix

/-- A stretch of text is spelled by one piece at most. -/
theorem Spelled.unique (spelled : p.Spelled taken) (spelled' : q.Spelled taken) : p = q := by
  obtain ⟨o, c, cs, rfl, has, shape⟩ := spelled.exists_shape
  have shape' := spelled'.shape has
  cases o with
  | blank => rw [shape.1, shape'.1]
  | digit => rw [shape.1, shape'.1]
  | letter => rw [shape.1, shape'.1]
  | quote =>
    rcases shape with ⟨body, rfl, rfl, -⟩ | ⟨rfl, alone⟩ <;>
      rcases shape' with ⟨body', rfl, same, -⟩ | ⟨rfl, alone'⟩
    · rw [List.append_cancel_right same]
    · exact absurd (by simp) alone'
    · exact absurd (by simp [same]) alone
    · rfl
  | mark =>
    rcases shape with ⟨kind, found, rfl, rfl⟩ | ⟨d, kind, found, rfl, rfl⟩ | ⟨rfl, rfl, body,
      rfl, -⟩ |
      ⟨rfl, rfl, body, rfl, -⟩ | ⟨rfl, rfl, body, rfl, unclosed⟩
    · rcases shape' with ⟨_, found', rfl, -⟩ | ⟨_, _, -, -, same⟩ | ⟨-, -, _, same, -⟩ | ⟨-, -, _,
        same, -⟩ |
        ⟨-, -, _, same, -⟩
      · rw [Option.some.inj (found.symm.trans found')]
      all_goals cases same
    · rcases shape' with ⟨_, -, -, same⟩ | ⟨_, _, found', rfl, same⟩ | ⟨rfl, -⟩ | ⟨rfl,
        -⟩ | ⟨rfl, -⟩
      · cases same
      · cases same
        rw [Option.some.inj (found.symm.trans found')]
      all_goals exact absurd found operator?_slash
    · rcases shape' with ⟨_, -, -, same⟩ | ⟨_, _, found', -⟩ | ⟨-, rfl, -⟩ | ⟨-, rfl, -⟩ | ⟨-, -, _,
        same, -⟩
      · cases same
      · exact absurd found' operator?_slash
      · rfl
      · rfl
      · cases same
    · rcases shape' with ⟨_, -, -, same⟩ | ⟨_, _, found', -⟩ | ⟨-, rfl, -⟩ | ⟨-, rfl, -⟩ | ⟨-, -, _,
        same, unclosed⟩
      · cases same
      · exact absurd found' operator?_slash
      · rfl
      · rfl
      · cases same
        exact absurd (infix_close body) unclosed
    · rcases shape' with ⟨_, -, -, same⟩ | ⟨_, _, found', -⟩ | ⟨-, -, _, same, -⟩ | ⟨-, -, _, same,
        -⟩ | ⟨-, rfl, -⟩
      · cases same
      · exact absurd found' operator?_slash
      · cases same
      · cases same
        exact absurd (infix_close _) unclosed
      · rfl

/-- What stands in front of a character of another sort is no longer than what stands in front of
the first such one. -/
theorem length_le_of_prefix (good : Char → Prop) {xs ys zs : List Char} (each : ∀ c ∈ xs, good c)
    (ahead : xs <+: ys ++ zs) (ends : ∀ c, zs.head? = some c → ¬ good c) :
    xs.length ≤ ys.length := by
  induction ys generalizing xs with
  | nil =>
    cases xs with
    | nil => exact Nat.le_refl _
    | cons x xs =>
      obtain ⟨tail, whole⟩ := ahead
      exact absurd (each x (List.mem_cons_self ..))
        (ends x (by rw [← List.nil_append zs, ← whole]; rfl))
  | cons y ys ih =>
    cases xs with
    | nil => exact Nat.zero_le _
    | cons x xs =>
      have shorter := ih (List.forall_mem_cons.mp each).2 (List.cons_prefix_cons.mp ahead).2
      simp only [List.length_cons]
      omega

end Shapes

section Front

variable {p q : Piece} {o : Opening} {c : Char} {cs taken rest body : List Char}

theorem Spelled.ahead (spelled : q.Spelled taken) (ahead : taken <+: c :: cs) (has : o.Has c) :
    ∃ tail, taken = c :: tail ∧ tail <+: cs ∧ Shape q c tail o := by
  obtain ⟨_, c', tail, rfl, -, -⟩ := spelled.exists_shape
  obtain ⟨rfl, behind⟩ := List.cons_prefix_cons.mp ahead
  exact ⟨tail, rfl, behind, spelled.shape has⟩

/-- A text without `*/` ends before the first `*/` does. -/
theorem length_lt_of_open {xs : List Char} (unclosed : ¬ ['*', '/'] <:+: xs)
    (ahead : xs <+: body ++ ['*', '/'] ++ rest) : xs.length < body.length + 2 := by
  apply Nat.lt_of_not_le
  intro longer
  have inside : body ++ ['*', '/'] <+: xs :=
    List.prefix_of_prefix_length_le (List.prefix_append _ rest) ahead (by simpa using longer)
  exact unclosed ((infix_close body).trans inside.isInfix)

theorem longest_of_all (spelled : p.Spelled taken) : Longest p taken [] where
  spelled := spelled
  longest := fun _ _ _ ahead => by simpa using ahead.length_le

theorem longest_blank (blank : isBlank c = true) : Longest .blank [c] rest where
  spelled := .blank blank
  longest := by
    intro q other spelled ahead
    obtain ⟨tail, rfl, -, -, rfl⟩ := spelled.ahead ahead (o := .blank) blank
    exact Nat.le_refl _

theorem longest_line (inside : ∀ c ∈ body, c ≠ '\n' ∧ c ≠ '\r')
    (ends : ∀ c, rest.head? = some c → c = '\n' ∨ c = '\r') :
    Longest .comment ('/' :: '/' :: body) rest where
  spelled := .line inside
  longest := by
    intro q other spelled ahead
    obtain ⟨tail, rfl, ahead, shape⟩ := spelled.ahead ahead (o := .mark) rfl
    rcases shape with ⟨_, -, -, rfl⟩ | ⟨d, _, found, -⟩ | ⟨-, -, body', rfl, inside'⟩ | ⟨-, -,
      body', rfl, -⟩ |
      ⟨-, -, body', rfl, -⟩
    · simp
    · exact absurd found operator?_slash
    · have shorter :=
        length_le_of_prefix _ inside' (List.cons_prefix_cons.mp ahead).2 fun c first good =>
        (ends c first).elim good.1 good.2
      simpa using shorter
    · cases (List.cons_prefix_cons.mp ahead).1
    · cases (List.cons_prefix_cons.mp ahead).1

theorem longest_block (inside : ¬ ['*', '/'] <:+: body ++ ['*']) :
    Longest .comment ('/' :: '*' :: (body ++ ['*', '/'])) rest where
  spelled := .block inside
  longest := by
    intro q other spelled ahead
    obtain ⟨tail, rfl, ahead, shape⟩ := spelled.ahead ahead (o := .mark) rfl
    rcases shape with ⟨_, -, -, rfl⟩ | ⟨d, _, found, -⟩ | ⟨-, -, body', rfl, -⟩ | ⟨-, -, body', rfl,
      inside'⟩ |
      ⟨-, -, body', rfl, inside'⟩
    · simp
    · exact absurd found operator?_slash
    · cases (List.cons_prefix_cons.mp ahead).1
    · have within := (List.cons_prefix_cons.mp ahead).2
      have open' : body' ++ ['*'] <+: body' ++ ['*', '/'] :=
        ⟨['/'], by rw [List.append_assoc]; rfl⟩
      have shorter := length_lt_of_open inside' (open'.trans within)
      simp only [List.length_cons, List.length_append, List.length_nil] at shorter ⊢
      omega
    · have shorter := length_lt_of_open inside' (List.cons_prefix_cons.mp ahead).2
      simp only [List.length_cons, List.length_append, List.length_nil]
      omega

theorem longest_pair {d : Char} {kind : TokenKind} (found : TokenKind.operator? c d = some kind) :
    Longest (.token kind [c, d]) [c, d] rest where
  spelled := spelled_pair found
  longest := by
    intro q other spelled ahead
    obtain ⟨tail, rfl, -, shape⟩ := spelled.ahead ahead (Opening.mark_of_operator? found)
    rcases shape with ⟨_, -, -, rfl⟩ | ⟨_, _, -, -, rfl⟩ | ⟨rfl, -⟩ | ⟨rfl, -⟩ | ⟨rfl, -⟩
    · exact Nat.le_succ _
    · exact Nat.le_refl _
    all_goals exact absurd found operator?_slash

/-- A character of its own that begins neither an operator of two characters nor a comment. -/
theorem longest_single {kind : TokenKind} (found : TokenKind.punctuation? c = some kind)
    (operator : ∀ d, rest.head? = some d → TokenKind.operator? c d = none)
    (comment : c = '/' → ∀ d, rest.head? = some d → d ≠ '/' ∧ d ≠ '*') :
    Longest (.token kind [c]) [c] rest where
  spelled := spelled_single found
  longest := by
    intro q other spelled ahead
    obtain ⟨tail, rfl, ahead, shape⟩ := spelled.ahead ahead (Opening.mark_of_punctuation? found)
    have second : ∀ d ds, tail = d :: ds → rest.head? = some d := by
      rintro d ds rfl
      obtain ⟨last, rfl⟩ := ahead
      rfl
    rcases shape with ⟨_, -, -, rfl⟩ | ⟨d, _, two, -, same⟩ | ⟨slash, -, _, same, -⟩ | ⟨slash, -, _,
      same, -⟩ |
      ⟨slash, -, _, same, -⟩
    · exact Nat.le_refl _
    · rw [operator d (second _ _ same)] at two
      cases two
    · exact absurd rfl (comment slash _ (second _ _ same)).1
    · exact absurd rfl (comment slash _ (second _ _ same)).2
    · exact absurd rfl (comment slash _ (second _ _ same)).2

theorem longest_string (quote : c = '"' ∨ c = '\'') (inside : c ∉ body) :
    Longest (.token .text body) (c :: (body ++ [c])) rest where
  spelled := .string quote inside
  longest := by
    intro q other spelled ahead
    obtain ⟨tail, rfl, ahead, shape⟩ := spelled.ahead ahead (o := .quote) quote
    -- Whatever is free of quotes ends before the closing one.
    have shorter : ∀ xs : List Char, c ∉ xs → xs <+: body ++ [c] ++ rest →
        xs.length ≤ body.length := by
      intro xs free ahead
      rw [List.append_assoc] at ahead
      apply length_le_of_prefix (· ≠ c) (fun d member same => free (same ▸ member)) ahead
      intro d first different
      exact different (Option.some.inj first).symm
    simp only [List.length_cons, List.length_append, List.length_nil]
    rcases shape with ⟨body', -, rfl, free⟩ | ⟨-, free⟩
    · have := shorter body' free ((List.prefix_append body' [c]).trans ahead)
      simp only [List.length_append, List.length_cons, List.length_nil]
      omega
    · have := shorter tail free ahead
      omega

theorem longest_number (digits : ∀ d ∈ c :: cs, d.isDigit = true)
    (ends : ∀ d, rest.head? = some d → d.isDigit = false) :
    Longest (.token .integer (c :: cs)) (c :: cs) rest where
  spelled := .number digits
  longest := by
    intro q other spelled ahead
    obtain ⟨tail, rfl, -, -, digits'⟩ :=
      spelled.ahead ahead (o := .digit) (List.forall_mem_cons.mp digits).1
    exact length_le_of_prefix _
      (List.forall_mem_cons.mpr ⟨(List.forall_mem_cons.mp digits).1, digits'⟩) ahead
      fun d first digit => by simp [ends d first] at digit

theorem longest_word (name : isIdentifier (c :: cs) = true)
    (ends : ∀ d, rest.head? = some d → isLetterOrDigit d = false) :
    Longest (.token ((TokenKind.keyword? (String.ofList (c :: cs))).getD .identifier) (c :: cs))
      (c :: cs) rest where
  spelled := spelled_word name
  longest := by
    intro q other spelled ahead
    obtain ⟨tail, rfl, ahead, -, letters⟩ :=
      spelled.ahead ahead (o := .letter) (Bool.and_eq_true_iff.mp name).1
    have shorter := length_le_of_prefix _ letters ahead fun d first letter => by
      simp [ends d first] at letter
    exact Nat.succ_le_succ shorter

theorem Longest.unique {taken' rest' : List Char} (longest : Longest p taken rest)
    (longest' : Longest q taken' rest') (same : taken ++ rest = taken' ++ rest') :
    p = q ∧ taken = taken' ∧ rest = rest' := by
  have shorter := longest.longest q taken' longest'.spelled (same ▸ List.prefix_append taken' rest')
  have shorter' := longest'.longest p taken longest.spelled (same ▸ List.prefix_append taken rest)
  obtain ⟨rfl, rfl⟩ := List.append_inj same (Nat.le_antisymm shorter' shorter)
  exact ⟨longest.spelled.unique longest'.spelled, rfl, rfl⟩

end Front

end Piece

structure Stretch where
  piece : Piece
  chars : List Char

def joined (cut : List Stretch) : List Char :=
  cut.flatMap Stretch.chars

/-- Whole pieces are taken off the front of a text, the longest one each time, until `last`
remains. -/
inductive Cuts (last : List Char) : List Char → List Stretch → Prop where
  | nil : Cuts last last []
  | cons {p : Piece} {taken rest : List Char} {cut : List Stretch} : p.Longest taken rest →
      p.IsWhole →
      Cuts last rest cut → Cuts last (taken ++ rest) (⟨p, taken⟩ :: cut)

inductive Stuck : List Char → LexErrorKind → Prop where
  /-- No piece begins here at all. -/
  | char {c : Char} {cs : List Char} : (∀ p taken, taken <+: c :: cs → ¬ Piece.Spelled p taken) →
      Stuck (c :: cs) (.unexpectedChar c)
  | string {taken rest : List Char} : Piece.openString.Longest taken rest →
      Stuck (taken ++ rest) .unterminatedString
  | comment {taken rest : List Char} : Piece.openComment.Longest taken rest →
      Stuck (taken ++ rest) .unterminatedComment

section Cuts

variable {cs mid last : List Char} {cut cut' : List Stretch}

theorem Cuts.text (cuts : Cuts last cs cut) : cs = joined cut ++ last := by
  induction cuts with
  | nil => rfl
  | cons _ _ _ ih => simp only [ih, joined, List.flatMap_cons, List.append_assoc]

theorem Cuts.append (cuts : Cuts mid cs cut) (more : Cuts last mid cut') :
    Cuts last cs (cut ++ cut') := by
  induction cuts with
  | nil => exact more
  | cons longest whole _ ih => exact .cons longest whole ih

theorem Stuck.not_longest {kind : LexErrorKind} (stuck : Stuck cs kind) {p : Piece}
    {taken rest : List Char} (longest : p.Longest taken rest) (same : cs = taken ++ rest) :
    ¬ p.IsWhole := by
  intro whole
  cases stuck with
  | char none => exact none p taken (same ▸ List.prefix_append taken rest) longest.spelled
  | string unclosed =>
    obtain ⟨rfl, -⟩ := unclosed.unique longest same
    exact whole
  | comment unclosed =>
    obtain ⟨rfl, -⟩ := unclosed.unique longest same
    exact whole

theorem Stuck.unique {kind kind' : LexErrorKind} (stuck : Stuck cs kind) (stuck' : Stuck cs kind') :
    kind = kind' := by
  generalize same : cs = cs' at stuck'
  cases stuck with
  | char none =>
    cases stuck' with
    | char => cases same; rfl
    | string unclosed | comment unclosed =>
      exact absurd unclosed.spelled (none _ _ (same ▸ List.prefix_append ..))
  | string unclosed =>
    cases stuck' with
    | char none => exact absurd unclosed.spelled (none _ _ (same ▸ List.prefix_append ..))
    | string => rfl
    | comment unclosed' => cases (unclosed.unique unclosed' same).1
  | comment unclosed =>
    cases stuck' with
    | char none => exact absurd unclosed.spelled (none _ _ (same ▸ List.prefix_append ..))
    | string unclosed' => cases (unclosed.unique unclosed' same).1
    | comment => rfl

theorem Stuck.not_nil {kind : LexErrorKind} : ¬ Stuck [] kind := by
  intro stuck
  generalize none : ([] : List Char) = cs at stuck
  cases stuck with
  | char => cases none
  | string unclosed | comment unclosed =>
    exact absurd (List.append_eq_nil_iff.mp none.symm).1 unclosed.spelled.ne_nil

/-- Nothing is left, or nothing whole can be taken. -/
def Final (cs : List Char) : Prop :=
  cs = [] ∨ ∃ kind, Stuck cs kind

theorem Final.not_longest (final : Final cs) {p : Piece} {taken rest : List Char}
    (longest : p.Longest taken rest) (same : cs = taken ++ rest) : ¬ p.IsWhole := by
  rcases final with rfl | ⟨kind, stuck⟩
  · exact absurd (List.append_eq_nil_iff.mp same.symm).1 longest.spelled.ne_nil
  · exact stuck.not_longest longest same

/-- There is one way to cut a text as far as it goes. -/
theorem Cuts.unique {last' : List Char} (cuts : Cuts last cs cut) (cuts' : Cuts last' cs cut')
    (final : Final last) (final' : Final last') : cut = cut' ∧ last = last' := by
  induction cuts generalizing cut' with
  | nil =>
    generalize same : last = cs at cuts'
    cases cuts' with
    | nil => exact ⟨rfl, rfl⟩
    | cons longest whole => exact absurd whole (final.not_longest longest same)
  | @cons p taken rest cut longest whole more ih =>
    generalize same : taken ++ rest = cs at cuts'
    cases cuts' with
    | nil => exact absurd whole (final'.not_longest longest same.symm)
    | cons longest' whole' more' =>
      obtain ⟨rfl, rfl, rfl⟩ := longest.unique longest' same
      obtain ⟨rfl, rfl⟩ := ih more'
      exact ⟨rfl, rfl⟩

end Cuts

end ScriptKit
