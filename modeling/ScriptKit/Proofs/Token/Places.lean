import Mathlib.Data.Prod.Lex
import ScriptKit.Proofs.Token.Tiling

/-! The places that tokens and errors carry are the places of their offsets.

The scanner moves its place on character by character, with a look at the character behind. Counting
lines anew from the front of the text comes to the same place behind every part of it. -/

namespace ScriptKit
open Piece

namespace Place

/-- Places in reading order: by line, and within a line by column. -/
def rank (p : Place) : ℕ ×ₗ ℕ :=
  toLex (p.line, p.column)

variable {p : Place} {c : Char} {next : Option Char}

theorem rank_le_step : p.rank ≤ (p.step c next).rank := by
  unfold step
  split
  · exact Prod.Lex.toLex_le_toLex.mpr (.inl (Nat.lt_succ_self _))
  · split
    · split
      · exact le_refl _
      · exact Prod.Lex.toLex_le_toLex.mpr (.inl (Nat.lt_succ_self _))
    · exact Prod.Lex.toLex_le_toLex.mpr (.inr ⟨rfl, Nat.le_succ _⟩)

/-- Only a carriage return can stay at its place. -/
theorem rank_lt_step (moves : c ≠ '\r') : p.rank < (p.step c next).rank := by
  unfold step
  rw [if_neg moves]
  split
  · exact Prod.Lex.toLex_lt_toLex.mpr (.inl (Nat.lt_succ_self _))
  · exact Prod.Lex.toLex_lt_toLex.mpr (.inr ⟨rfl, Nat.lt_succ_self _⟩)

end Place

section Heads

variable {h : Head} {c : Char} {cs : List Char} {next : Option Char}

theorem Head.rank_le_past : h.place.rank ≤ (h.past cs next).place.rank := by
  induction cs generalizing h with
  | nil => exact le_refl _
  | cons c cs ih =>
    rw [Head.past_cons]
    have one : h.place.rank ≤ (h.step c (cs.head?.or next)).place.rank := Place.rank_le_step
    exact le_trans one ih

theorem Head.rank_lt_past (moves : c ≠ '\r') :
    h.place.rank < (h.past (c :: cs) next).place.rank := by
  rw [Head.past_cons]
  have one : h.place.rank < (h.step c (cs.head?.or next)).place.rank := Place.rank_lt_step moves
  exact lt_of_lt_of_le one Head.rank_le_past

theorem lineColumn_go_zero (text : List Char) (line column : Nat) :
    lineColumn.go text 0 line column = ⟨line, column⟩ := by
  cases text <;> rfl

/-- One character of the count. -/
theorem lineColumn_go_cons (c : Char) (text : List Char) (left : Nat) (p : Place) :
    lineColumn.go (c :: text) (c.utf8Size + left) p.line p.column =
      lineColumn.go text left (p.step c text.head?).line (p.step c text.head?).column := by
  have filled := c.utf8Size_pos
  rw [lineColumn.go, if_neg (by omega)]
  unfold Place.step
  by_cases feed : c = '\n'
  · have size : c.utf8Size = 1 := by rw [feed]; rfl
    rw [if_pos feed, if_neg (by simp [feed]), if_pos (.inl feed), size, Nat.add_sub_cancel_left]
    rfl
  · rw [if_neg feed]
    by_cases carriage : c = '\r'
    · have size : c.utf8Size = 1 := by rw [carriage]; rfl
      rw [if_pos carriage, size, Nat.add_sub_cancel_left]
      by_cases both : text.head? = some '\n'
      · rw [if_pos both, if_pos ⟨carriage, both⟩]
      · rw [if_neg both, if_neg fun same => both same.2, if_pos (.inr carriage)]
        rfl
    · rw [if_neg carriage, if_neg fun same => carriage same.1,
        if_neg fun ends => ends.elim feed carriage, Nat.add_sub_cancel_left]

/-- Counting up to the end of a part of the text leads to where the head is behind that part. -/
theorem lineColumn_append (before after : List Char) :
    lineColumn (before ++ after) (byteLength before) =
      (Head.start.past before after.head?).place := by
  suffices counted : ∀ h : Head,
      lineColumn.go (before ++ after) (byteLength before) h.place.line h.place.column =
      (h.past before after.head?).place from counted .start
  intro h
  induction before generalizing h with
  | nil => exact lineColumn_go_zero after _ _
  | cons c before ih =>
    rw [List.cons_append, byteLength_cons, lineColumn_go_cons, Head.past_cons, List.head?_append]
    exact ih (h.step c _)

end Heads

section Tokens

variable {source : String} {base : Nat} {t : Token} {before taken after rest : List Char}
  {cut : List Stretch}

theorem Sits.places (sits : Sits source.toList base t before taken after) :
    t.first = lineColumn source.toList (t.span.start - base) ∧
      t.last = lineColumn source.toList (t.span.stop - base) := by
  rw [sits.offsets.1, sits.offsets.2, sits.first, sits.last, sits.text, lineColumn_append,
    List.append_assoc, lineColumn_append]
  exact ⟨rfl, rfl⟩

theorem endOfInput_places (source : String) (base : Nat) :
    (Head.start.past source.toList none).place =
      lineColumn source.toList
        (((Head.start.past source.toList none).endOfInput base).span.stop - base) := by
  have counted := lineColumn_append source.toList []
  rw [List.append_nil, byteLength_toList] at counted
  rw [endOfInput_span, Nat.add_sub_cancel_left, counted]
  rfl

theorem not_blank_of_token {kind : TokenKind} {text : List Char} {c : Char} {cs : List Char}
    (spelled : (Piece.token kind text).Spelled (c :: cs)) : isBlank c = false := by
  apply Bool.eq_false_iff.mpr
  intro blank
  cases (spelled.shape (o := .blank) blank).1

/-- No token begins with a carriage return. -/
theorem token_moves {kind : TokenKind} {text : List Char} {c : Char} {cs : List Char}
    (spelled : (Piece.token kind text).Spelled (c :: cs)) : c ≠ '\r' := by
  rintro rfl
  cases not_blank_of_token spelled

theorem Sits.not_blank (sits : Sits source.toList base t before taken after) {c : Char}
    (here : charAt source (t.span.start - base) = some c) : isBlank c = false := by
  obtain ⟨_, c', cs, rfl, -⟩ := sits.longest.spelled.exists_shape
  have text := sits.text
  rw [List.append_assoc] at text
  rw [sits.offsets.1, charAt_eq text, List.cons_append, List.head?_cons] at here
  cases here
  exact not_blank_of_token sits.longest.spelled

/-- Every token has the place of its first byte, and it does not begin with a blank. -/
theorem tokensFrom_begin (base : Nat) (cuts : Cuts [] source.toList cut) {t : Token}
    (member : t ∈ tokensFrom base .start cut) :
    t.first = lineColumn source.toList (t.span.start - base) ∧
      ∀ c, charAt source (t.span.start - base) = some c → isBlank c = false := by
  obtain ⟨us, same, each⟩ := exists_tokens base cuts
  rw [same] at member
  rcases List.mem_append.mp member with inside | last
  · obtain ⟨_, _, _, sits⟩ := each t inside
    exact ⟨sits.places.1, fun _ => sits.not_blank⟩
  · rw [List.mem_singleton.mp last]
    refine ⟨endOfInput_places source base, fun c here => ?_⟩
    have past := charAt_eq (List.append_nil source.toList).symm
    rw [endOfInput_span, Nat.add_sub_cancel_left, ← byteLength_toList, past] at here
    cases here

/-- Every token begins where the head is or behind it, and behind where the tokens before it
begin. -/
theorem ranks_tokensFrom (cuts : Cuts [] rest cut) (h : Head) :
    (∀ t ∈ tokensFrom base h cut, h.place.rank ≤ t.first.rank) ∧
      (tokensFrom base h cut).Pairwise fun t u => t.first.rank < u.first.rank := by
  induction cuts generalizing h with
  | nil => exact ⟨by simp [tokensFrom, Head.endOfInput], List.pairwise_singleton ..⟩
  | @cons p taken rest cut longest whole more ih =>
    obtain ⟨later, ordered⟩ := ih (h.past taken (joined cut).head?)
    have behind : ∀ t ∈ tokensFrom base (h.past taken (joined cut).head?) cut,
        h.place.rank ≤ t.first.rank :=
      fun t member => le_trans Head.rank_le_past (later t member)
    rw [tokensFrom]
    cases p with
    | openString | openComment => cases whole
    | blank | comment => exact ⟨behind, ordered⟩
    | token kind text =>
      refine ⟨List.forall_mem_cons.mpr ⟨le_refl _, behind⟩, List.pairwise_cons.mpr ⟨?_, ordered⟩⟩
      intro t member
      obtain ⟨_, c, cs, rfl, -⟩ := longest.spelled.exists_shape
      exact lt_of_lt_of_le (Head.rank_lt_past (token_moves longest.spelled)) (later t member)

/-- Tokens and errors carry the places that counting lines from the front of the source gives for
their offsets, and each token begins behind the one before it. -/
theorem scan_places (source : String) (base : Nat) :
    match scan source base with
    | .ok ts =>
      (∀ t ∈ ts, t.first = lineColumn source.toList (t.span.start - base) ∧
        t.last = lineColumn source.toList (t.span.stop - base)) ∧
      ts.Pairwise fun t u => toLex (t.first.line, t.first.column) <
        toLex (u.first.line, u.first.column)
    | .error e => e.place = lineColumn source.toList (e.span.start - base) := by
  cases scanned : scan source base with
  | ok ts =>
    obtain ⟨cut, cuts, rfl⟩ := (scan_eq_ok_iff source base ts).mp scanned
    refine ⟨?_, (ranks_tokensFrom cuts .start).2⟩
    obtain ⟨us, same, each⟩ := exists_tokens base cuts
    rw [same]
    refine List.forall_mem_append.mpr ⟨?_, List.forall_mem_singleton.mpr ?_⟩
    · intro t member
      obtain ⟨_, _, _, sits⟩ := each t member
      exact sits.places
    · exact ⟨endOfInput_places source base, endOfInput_places source base⟩
  | error e =>
    obtain ⟨cut, rest, kind, cuts, stuck, rfl⟩ := (scan_eq_error_iff source base e).mp scanned
    simp only [Head.error, start_past, Nat.add_sub_cancel_left]
    rw [cuts.text, lineColumn_append]

end Tokens

end ScriptKit
