import Mathlib.Data.List.Chain
import Mathlib.Data.String.Basic
import ScriptKit.Proofs.Token.Cutting

/-! Tokens and the gaps between them make up a source, byte by byte.

The cut of a source says where each token stands. What a token's span covers, what follows it and
what lies between it and the next one are read off the cut and put in terms of the source's own
bytes. -/

namespace ScriptKit
open Piece

section Bytes

variable {source : String} {before within after : List Char}

def slice (source : String) (s : Span) : String :=
  String.Pos.Raw.extract source ⟨s.start⟩ ⟨s.stop⟩

def charAt (source : String) (offset : Nat) : Option Char :=
  String.Pos.Raw.get? source ⟨offset⟩

def IsBoundary (source : String) (offset : Nat) : Prop :=
  String.Pos.Raw.IsValid source ⟨offset⟩

theorem utf8Len_eq (cs : List Char) : String.utf8Len cs = byteLength cs := by
  induction cs with
  | nil => rfl
  | cons c cs ih => rw [String.utf8Len_cons, ih, byteLength_cons, Nat.add_comm]

theorem byteLength_toList (source : String) : byteLength source.toList = source.utf8ByteSize := by
  rw [← utf8Len_eq, ← String.utf8ByteSize_ofList, String.ofList_toList]

theorem slice_eq (text : source.toList = before ++ within ++ after) :
    slice source ⟨byteLength before, byteLength before + byteLength within⟩ =
      String.ofList within := by
  have extracted := String.extract_of_valid before within after
  rwa [utf8Len_eq, utf8Len_eq, ← text, String.ofList_toList] at extracted

theorem charAt_eq (text : source.toList = before ++ after) :
    charAt source (byteLength before) = after.head? := by
  have first := String.get?_of_valid before after
  rwa [utf8Len_eq, ← text, String.ofList_toList] at first

theorem isBoundary_of_append (text : source.toList = before ++ after) :
    IsBoundary source (byteLength before) := by
  apply String.Pos.Raw.isValid_iff_exists_append.mpr
  refine ⟨String.ofList before, String.ofList after, ?_, ?_⟩
  · rw [← String.ofList_append, ← text, String.ofList_toList]
  · rw [String.rawEndPos, String.utf8ByteSize_ofList, utf8Len_eq]

theorem byteLength_pos {cs : List Char} (some_char : cs ≠ []) : 0 < byteLength cs := by
  cases cs with
  | nil => exact absurd rfl some_char
  | cons c cs =>
    have := c.utf8Size_pos
    rw [byteLength_cons]
    omega

end Bytes

namespace Piece

variable {p : Piece} {kind : TokenKind} {text taken rest : List Char} {c d : Char}

abbrev IsFixed (kind : TokenKind) : Prop :=
  kind ∉ [.identifier, .integer, .text, .endOfInput]

theorem isFixed_of_describe (same : kind.describe.toList = taken) (short : taken.length ≤ 2) :
    IsFixed kind := by
  subst same
  cases kind <;> revert short <;> decide

/-- What the kind of a token says about the characters that spell it. -/
def Writes (text taken : List Char) : TokenKind → Prop
  | .identifier => taken = text ∧ isIdentifier taken = true
  | .integer => taken = text ∧ taken.all Char.isDigit = true
  | .text =>
    ∃ quote, (quote = '"' ∨ quote = '\'') ∧ quote ∉ text ∧ taken = quote :: (text ++ [quote])
  | .endOfInput => False
  | kind => taken = text ∧ String.ofList taken = kind.describe

theorem writes_of_describe (same : kind.describe.toList = taken) (short : taken.length ≤ 2) :
    Writes taken taken kind := by
  subst same
  cases kind with
  | identifier | integer | text | endOfInput => exact absurd short (by decide)
  | _ => exact ⟨rfl, String.ofList_toList⟩

theorem writes_of_keyword (reserved : kind.isKeyword = true) :
    Writes kind.describe.toList kind.describe.toList kind := by
  cases kind with
  | varWord | constWord | functionWord | fnWord | trueWord | falseWord | nullWord =>
    exact ⟨rfl, String.ofList_toList⟩
  | _ => cases reserved

theorem Spelled.writes (spelled : (Piece.token kind text).Spelled taken) :
    Writes text taken kind := by
  cases spelled with
  | pair _ same => exact writes_of_describe same (Nat.le_refl 2)
  | single same => exact writes_of_describe same (Nat.le_succ 1)
  | string quote inside => exact ⟨_, quote, inside, rfl⟩
  | number digits => exact ⟨rfl, List.all_eq_true.mpr digits⟩
  | keyword reserved => exact writes_of_keyword reserved
  | name name _ => exact ⟨rfl, name⟩

theorem Writes.describe (writes : Writes text taken kind) (fixed : IsFixed kind) :
    String.ofList taken = kind.describe := by
  cases kind with
  | identifier | integer | text | endOfInput => exact absurd (by decide) fixed
  | _ => exact writes.2

theorem Writes.keyword (writes : Writes text taken kind) (word : kind.isKeyword = true) :
    isIdentifier taken = true := by
  have name := TokenKind.isIdentifier_describe word
  have fixed : IsFixed kind := by
    cases kind <;> first | decide | cases word
  rwa [← writes.describe fixed, String.toList_ofList] at name

/-- No longer piece begins where the longest one does. -/
theorem Longest.not_spelled (longest : p.Longest taken rest) (next : rest.head? = some d)
    {q : Piece} :
    ¬ q.Spelled (taken ++ [d]) := by
  intro spelled
  obtain ⟨tail, rfl⟩ := List.head?_eq_some_iff.mp next
  have shorter := longest.longest q _ spelled ⟨tail, by rw [List.append_assoc]; rfl⟩
  rw [List.length_append, List.length_singleton] at shorter
  omega

theorem Longest.not_letter (longest : p.Longest taken rest) (name : isIdentifier taken = true)
    (next : rest.head? = some d) : isLetterOrDigit d = false := by
  apply Bool.eq_false_iff.mpr
  intro letter
  cases taken with
  | nil => exact longest.spelled.ne_nil rfl
  | cons c cs =>
    obtain ⟨first, others⟩ := Bool.and_eq_true_iff.mp name
    have longer : (cs ++ [d]).all isLetterOrDigit = true := by simp [others, letter]
    have word : isIdentifier (c :: cs ++ [d]) = true := Bool.and_eq_true_iff.mpr ⟨first, longer⟩
    exact longest.not_spelled next (spelled_word word)

theorem Longest.not_digit (longest : p.Longest taken rest) (digits : taken.all Char.isDigit = true)
    (next : rest.head? = some d) : d.isDigit = false := by
  apply Bool.eq_false_iff.mpr
  intro digit
  cases taken with
  | nil => exact longest.spelled.ne_nil rfl
  | cons c cs =>
    have longer : (c :: cs ++ [d]).all Char.isDigit = true := by
      rw [List.all_append, digits]; simpa using digit
    exact longest.not_spelled next (.number (List.all_eq_true.mp longer))

theorem Longest.not_operator (longest : p.Longest [c] rest) (next : rest.head? = some d)
    (sign : kind.isKeyword = false) : kind.describe.toList ≠ [c, d] :=
  fun same => longest.not_spelled next (.pair sign same)

end Piece

/-- Where a token stands in its source, and that it is the longest piece there. -/
structure Sits (source : List Char) (base : Nat) (t : Token) (before taken after : List Char) :
    Prop where
  text : source = before ++ taken ++ after
  longest : (Piece.token t.kind t.text.toList).Longest taken after
  span : t.span = ⟨base + byteLength before, base + byteLength before + byteLength taken⟩
  first : t.first = (Head.start.past before (taken ++ after).head?).place
  last : t.last = (Head.start.past (before ++ taken) after.head?).place

def IsGap (text : String) : Prop :=
  ∃ gap, text.toList = joined gap ∧ ∀ s ∈ gap, s.piece.IsTrivia ∧ s.piece.Spelled s.chars

def Span.Ahead (s s' : Span) : Prop :=
  s.stop ≤ s'.start ∧ s'.start ≤ s'.stop

instance : Trans Span.Ahead Span.Ahead Span.Ahead where
  trans := by
    intro s s' s'' ahead ahead'
    unfold Span.Ahead at *
    omega

/-- One span stands behind another, with only a gap between them. -/
def Follows (source : String) (base : Nat) (s s' : Span) : Prop :=
  s.Ahead s' ∧ IsGap (slice source ⟨s.stop - base, s'.start - base⟩)

section Tokens

variable {source : String} {rest before after : List Char} {base : Nat} {cut : List Stretch}
  {t : Token}

theorem start_past (before : List Char) (next : Option Char) :
    (Head.start.past before next).offset = byteLength before := by
  rw [Head.offset_past]
  exact Nat.zero_add _

/-- The tokens behind a text that is cut up to `rest`. -/
theorem tokensFrom_cons (base : Nat) (before : List Char) (s : Stretch) (cuts : Cuts [] rest cut) :
    tokensFrom base (Head.start.past before (s.chars ++ rest).head?) (s :: cut) =
      (s.token? base (Head.start.past before (s.chars ++ rest).head?)
        (Head.start.past (before ++ s.chars) rest.head?)).toList ++
      tokensFrom base (Head.start.past (before ++ s.chars) rest.head?) cut := by
  have joins : joined cut = rest := by simpa using cuts.text.symm
  rw [tokensFrom, joins, Head.past_append, List.head?_append]

theorem token?_sits (base : Nat) {kind : TokenKind} {text taken : List Char}
    (longest : (Piece.token kind text).Longest taken after)
    (whole : source.toList = before ++ (taken ++ after)) :
    ∃ t, Stretch.token? ⟨.token kind text, taken⟩ base
      (Head.start.past before (taken ++ after).head?)
        (Head.start.past (before ++ taken) after.head?) = some t ∧
        Sits source.toList base t before taken after := by
  refine ⟨_, rfl, by rw [whole, List.append_assoc], ?_, ?_, rfl, rfl⟩
  · rwa [String.toList_ofList]
  · rw [start_past, start_past, byteLength_append, Nat.add_assoc]

theorem exists_tokensFrom (cuts : Cuts [] rest cut) (text : source.toList = before ++ rest) :
    ∃ us, tokensFrom base (Head.start.past before rest.head?) cut =
        us ++ [(Head.start.past source.toList none).endOfInput base] ∧
      ∀ t ∈ us, ∃ passed taken after, Sits source.toList base t (before ++ passed) taken after := by
  induction cuts generalizing before with
  | nil =>
    rw [List.append_nil] at text
    exact ⟨[], by rw [text]; rfl, List.forall_mem_nil _⟩
  | @cons p taken rest cut longest whole more ih =>
    obtain ⟨us, same, each⟩ := @ih (before ++ taken) (by rw [text, List.append_assoc])
    have later : ∀ t ∈ us, ∃ passed taken after,
        Sits source.toList base t (before ++ passed) taken after := by
      intro t member
      obtain ⟨passed, taken', after, sits⟩ := each t member
      rw [List.append_assoc] at sits
      exact ⟨_, taken', after, sits⟩
    have split := tokensFrom_cons base before ⟨p, taken⟩ more
    dsimp only at split
    rw [split, same]
    cases p with
    | openString | openComment => cases whole
    | blank | comment => exact ⟨us, rfl, later⟩
    | token kind content =>
      obtain ⟨t, found, sits⟩ := token?_sits base longest text
      rw [found]
      refine ⟨t :: us, rfl, List.forall_mem_cons.mpr ⟨⟨[], taken, rest, ?_⟩, later⟩⟩
      rwa [List.append_nil]

theorem exists_tokens (base : Nat) (cuts : Cuts [] source.toList cut) :
    ∃ us, tokensFrom base .start cut =
      us ++ [(Head.start.past source.toList none).endOfInput base] ∧
      ∀ t ∈ us, ∃ before taken after, Sits source.toList base t before taken after := by
  have text : source.toList = [] ++ source.toList := rfl
  exact exists_tokensFrom cuts text

theorem follows_gap {gap : List Stretch} (text : source.toList = before ++ joined gap ++ rest)
    (trivia : ∀ s ∈ gap, s.piece.IsTrivia ∧ s.piece.Spelled s.chars) {s s' : Span}
    (stop : s.stop = base + byteLength before)
    (start : s'.start = base + byteLength (before ++ joined gap)) (later : s'.start ≤ s'.stop) :
    Follows source base s s' := by
  rw [byteLength_append] at start
  refine ⟨⟨by omega, later⟩, gap, ?_, trivia⟩
  rw [stop, start, Nat.add_sub_cancel_left, Nat.add_sub_cancel_left, slice_eq text,
    String.toList_ofList]

/-- Each token stands behind the one before it. -/
theorem follows_tokensFrom (cuts : Cuts [] rest cut) (before : List Char) (gap : List Stretch)
    (s : Span) (stop : s.stop = base + byteLength before)
    (text : source.toList = before ++ joined gap ++ rest)
    (trivia : ∀ s ∈ gap, s.piece.IsTrivia ∧ s.piece.Spelled s.chars) :
    (s :: (tokensFrom base (Head.start.past (before ++ joined gap) rest.head?) cut).map
      Token.span).IsChain (Follows source base) := by
  induction cuts generalizing before gap s with
  | nil =>
    refine .cons_cons (follows_gap text trivia stop ?_ (Nat.le_refl _)) (.singleton _)
    rw [Head.endOfInput, start_past]
  | @cons p taken rest cut longest whole more ih =>
    have split := tokensFrom_cons base (before ++ joined gap) ⟨p, taken⟩ more
    dsimp only at split
    rw [split]
    -- A gap grows by blanks and comments until a token ends it.
    have grow (trivial : p.IsTrivia) : (s :: (tokensFrom base
        (Head.start.past (before ++ joined gap ++ taken) rest.head?) cut).map Token.span).IsChain
          (Follows source base) := by
      have longer : joined (gap ++ [⟨p, taken⟩]) = joined gap ++ taken := by simp [joined]
      have grown :=
        ih before (gap ++ [⟨p, taken⟩]) s stop (by rw [text, longer]; simp only [List.append_assoc])
        (List.forall_mem_append.mpr ⟨trivia, by simpa using ⟨trivial, longest.spelled⟩⟩)
      rwa [longer, ← List.append_assoc] at grown
    cases p with
    | openString | openComment => cases whole
    | blank | comment => exact grow trivial
    | token kind content =>
      obtain ⟨t, found, sits⟩ := token?_sits base longest text
      rw [found]
      refine .cons_cons (follows_gap text trivia stop (congrArg Span.start sits.span) ?_) ?_
      · rw [sits.span]
        exact Nat.le_add_right ..
      · have stop' : t.span.stop = base + byteLength (before ++ joined gap ++ taken) := by
          rw [sits.span, byteLength_append _ taken, Nat.add_assoc]
        have none : before ++ joined gap ++ taken ++ joined [] = before ++ joined gap ++ taken :=
          List.append_nil _
        have behind := ih _ [] t.span stop' (by rw [none, sits.text]) (List.forall_mem_nil _)
        rwa [none] at behind

end Tokens

/-- How the tokens `us` and the end of input behind them make up a source whose spans begin at
`base`. -/
structure Tiled (source : String) (base : Nat) (us : List Token) (last : Token) : Prop where
  ends : last.kind = .endOfInput ∧ last.text = "" ∧
    last.span = ⟨base + source.utf8ByteSize, base + source.utf8ByteSize⟩
  filled : ∀ t ∈ us, t.kind ≠ .endOfInput ∧ t.span.start < t.span.stop
  inside : ∀ t ∈ us ++ [last], base ≤ t.span.start ∧ t.span.stop ≤ base + source.utf8ByteSize
  ordered : (us ++ [last]).Pairwise fun t u => t.span.stop ≤ u.span.start
  boundaries : ∀ t ∈ us ++ [last], IsBoundary source (t.span.start - base) ∧
      IsBoundary source (t.span.stop - base)
  written : ∀ t ∈ us, Writes t.text.toList
      (slice source ⟨t.span.start - base, t.span.stop - base⟩).toList t.kind
  /-- Also in front of the first token. -/
  gaps : (⟨base, base⟩ :: (us ++ [last]).map Token.span).IsChain fun s s' =>
    IsGap (slice source ⟨s.stop - base, s'.start - base⟩)
  words : ∀ t ∈ us, t.kind = .identifier ∨ t.kind.isKeyword = true →
    ∀ d, charAt source (t.span.stop - base) = some d → isLetterOrDigit d = false
  numbers : ∀ t ∈ us, t.kind = .integer →
    ∀ d, charAt source (t.span.stop - base) = some d → d.isDigit = false
  /-- Of one character, such as `=`, `!`, `<` and `>`. -/
  operators : ∀ t ∈ us, ∀ c, t.kind.describe.toList = [c] →
    ∀ d, charAt source (t.span.stop - base) = some d →
    ∀ kind : TokenKind, kind.isKeyword = false → kind.describe.toList ≠ [c, d]

section Tiles

variable {source : String} {base : Nat} {t : Token} {before taken after : List Char}

theorem Sits.offsets (sits : Sits source.toList base t before taken after) :
    t.span.start - base = byteLength before ∧
    t.span.stop - base = byteLength (before ++ taken) := by
  simp only [sits.span, byteLength_append]
  omega

theorem Sits.next (sits : Sits source.toList base t before taken after) :
    charAt source (t.span.stop - base) = after.head? := by
  rw [sits.offsets.2, charAt_eq sits.text]

theorem Sits.slice (sits : Sits source.toList base t before taken after) :
    (slice source ⟨t.span.start - base, t.span.stop - base⟩).toList = taken := by
  rw [sits.offsets.1, sits.offsets.2, byteLength_append, slice_eq sits.text, String.toList_ofList]

theorem Sits.boundaries (sits : Sits source.toList base t before taken after) :
    IsBoundary source (t.span.start - base) ∧ IsBoundary source (t.span.stop - base) := by
  rw [sits.offsets.1, sits.offsets.2]
  have text := sits.text
  exact ⟨isBoundary_of_append (by rw [text, List.append_assoc]), isBoundary_of_append text⟩

theorem Sits.inside (sits : Sits source.toList base t before taken after) :
    base ≤ t.span.start ∧ t.span.start < t.span.stop ∧
    t.span.stop ≤ base + source.utf8ByteSize := by
  have filled := byteLength_pos sits.longest.spelled.ne_nil
  have size := byteLength_toList source
  simp only [sits.text, byteLength_append] at size
  simp only [sits.span]
  omega

theorem Sits.writes (sits : Sits source.toList base t before taken after) :
    Writes t.text.toList taken t.kind :=
  sits.longest.spelled.writes

theorem Sits.not_operator {c : Char} (sits : Sits source.toList base t before taken after)
    (same : t.kind.describe.toList = [c]) (d : Char)
    (next : charAt source (t.span.stop - base) = some d) (kind : TokenKind)
    (sign : kind.isKeyword = false) : kind.describe.toList ≠ [c, d] := by
  have writes := sits.writes.describe (isFixed_of_describe same (Nat.le_succ 1))
  have alone : taken = [c] := by rw [← same, ← writes, String.toList_ofList]
  have longest := sits.longest
  rw [alone] at longest
  exact longest.not_operator (sits.next ▸ next) sign

theorem Sits.not_letter (sits : Sits source.toList base t before taken after)
    (word : t.kind = .identifier ∨ t.kind.isKeyword = true) (d : Char)
    (next : charAt source (t.span.stop - base) = some d) : isLetterOrDigit d = false := by
  have writes := sits.writes
  apply sits.longest.not_letter ?_ (sits.next ▸ next)
  rcases word with name | keyword
  · rw [name] at writes
    exact writes.2
  · exact writes.keyword keyword

theorem Sits.not_digit (sits : Sits source.toList base t before taken after)
    (integer : t.kind = .integer) (d : Char) (next : charAt source (t.span.stop - base) = some d) :
    d.isDigit = false := by
  have writes := sits.writes
  rw [integer] at writes
  exact sits.longest.not_digit writes.2 (sits.next ▸ next)

theorem endOfInput_span (source : String) (base : Nat) :
    ((Head.start.past source.toList none).endOfInput base).span =
      ⟨base + source.utf8ByteSize, base + source.utf8ByteSize⟩ := by
  rw [Head.endOfInput, start_past, byteLength_toList]

theorem isBoundary_end (source : String) : IsBoundary source source.utf8ByteSize := by
  rw [← byteLength_toList]
  exact isBoundary_of_append (List.append_nil _).symm

theorem tiled_tokensFrom {cut : List Stretch} (base : Nat) (cuts : Cuts [] source.toList cut) :
    ∃ us last, tokensFrom base .start cut = us ++ [last] ∧ Tiled source base us last := by
  obtain ⟨us, same, each⟩ := exists_tokens base cuts
  have follows : (_ :: (tokensFrom base .start cut).map Token.span).IsChain (Follows source base) :=
    follows_tokensFrom cuts [] [] ⟨base, base⟩ rfl rfl (List.forall_mem_nil _)
  have ahead : (_ :: _).Pairwise Span.Ahead := (follows.imp fun _ _ follows => follows.1).pairwise
  rw [same] at follows ahead
  refine ⟨us, _, same, ?_⟩
  constructor
  case ends => exact ⟨rfl, rfl, endOfInput_span source base⟩
  case filled =>
    intro t member
    obtain ⟨_, _, _, sits⟩ := each t member
    refine ⟨fun ends => ?_, sits.inside.2.1⟩
    have writes := sits.writes
    rw [ends] at writes
    exact writes
  case inside =>
    refine List.forall_mem_append.mpr ⟨?_, ?_⟩
    · intro t member
      obtain ⟨_, _, _, sits⟩ := each t member
      exact ⟨sits.inside.1, sits.inside.2.2⟩
    · rw [List.forall_mem_singleton, endOfInput_span]
      exact ⟨Nat.le_add_right .., Nat.le_refl _⟩
  case ordered =>
    have spans := (List.pairwise_cons.mp ahead).2
    exact (List.pairwise_map.mp spans).imp fun ahead => ahead.1
  case boundaries =>
    refine List.forall_mem_append.mpr ⟨?_, ?_⟩
    · intro t member
      obtain ⟨_, _, _, sits⟩ := each t member
      exact sits.boundaries
    · rw [List.forall_mem_singleton, endOfInput_span, Nat.add_sub_cancel_left]
      exact ⟨isBoundary_end source, isBoundary_end source⟩
  case written =>
    intro t member
    obtain ⟨_, _, _, sits⟩ := each t member
    rw [sits.slice]
    exact sits.writes
  case gaps => exact follows.imp fun _ _ follows => follows.2
  case words =>
    intro t member
    obtain ⟨_, _, _, sits⟩ := each t member
    exact sits.not_letter
  case numbers =>
    intro t member
    obtain ⟨_, _, _, sits⟩ := each t member
    exact sits.not_digit
  case operators =>
    intro t member c
    obtain ⟨_, _, _, sits⟩ := each t member
    exact sits.not_operator

/-- Scanning succeeds just if a source can be cut to its end, one longest piece after the other, and
then gives the tokens of the cut. These tile the source. Else the error stands where the cut cannot
go on. -/
theorem scan_tiled (source : String) (base : Nat) :
    (∀ ts, scan source base = .ok ts ↔ ∃ cut, Cuts [] source.toList cut ∧
      ts = tokensFrom base .start cut) ∧
    match scan source base with
    | .ok ts => ∃ us last, ts = us ++ [last] ∧ Tiled source base us last
    | .error e => ∃ cut rest, Cuts rest source.toList cut ∧ Stuck rest e.kind ∧
        e.span.start = base + byteLength (joined cut) := by
  refine ⟨scan_eq_ok_iff source base, ?_⟩
  cases scanned : scan source base with
  | ok ts =>
    obtain ⟨cut, cuts, rfl⟩ := (scan_eq_ok_iff source base ts).mp scanned
    exact tiled_tokensFrom base cuts
  | error e =>
    obtain ⟨cut, rest, kind, cuts, stuck, rfl⟩ := (scan_eq_error_iff source base e).mp scanned
    refine ⟨cut, rest, cuts, stuck, ?_⟩
    rw [Head.error, start_past]

example :
    (scan "a<=-1 // b\n==fnc'd'" 5).toOption.map
      (List.map fun t => (t.kind, t.text, t.span.start)) =
      some [(.identifier, "a", 5), (.lessEqual, "<=", 6), (.minus, "-", 8), (.integer, "1", 9),
        (.equal, "==", 16), (.identifier, "fnc", 18), (.text, "d", 21), (.endOfInput, "", 24)] := by
  decide +kernel

end Tiles

end ScriptKit
