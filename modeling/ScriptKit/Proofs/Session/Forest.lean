import ScriptKit.Proofs.Session.Stepwise
import ScriptKit.Proofs.Token.Places
import ScriptKit.Proofs.Tree.Layout

/-! The catalogue after any number of sources, right or wrong.

Each source has offsets of its own, and its nodes lie there. What was read before it stays as it
was. -/

namespace ScriptKit

def readAll (sources : List String) : Ast :=
  sources.foldl (fun ast source => (parseSource source ast).2) {}

def beginning (sources : List String) (n : Nat) : Nat :=
  (readAll (sources.take n)).sourceEnd

/-- The offsets that a source read into `ast` takes up, its characters and its lines. Nothing begins
with a blank. -/
def Layout.ofSource (ast : Ast) (source : String) : Layout where
  old := ast.reserve source.utf8ByteSize
  good := fun offset => ast.sourceEnd ≤ offset ∧ offset ≤ ast.sourceEnd + source.utf8ByteSize ∧
    IsBoundary source (offset - ast.sourceEnd)
  opens := fun offset => ∀ c, charAt source (offset - ast.sourceEnd) = some c → isBlank c = false
  place := fun offset => lineColumn source.toList (offset - ast.sourceEnd)

section Reading

variable {ast : Ast} {source : String}

theorem Layout.lined_of_tiled {S : Layout} {us : List Token} {last : Token}
    (ends : last.kind = .endOfInput) (empty : last.span.stop ≤ last.span.start)
    (inside : ∀ t ∈ us, t.kind ≠ .endOfInput) (stands : ∀ t ∈ us ++ [last], S.Stands t)
    (ordered : (us ++ [last]).Pairwise fun t u => t.span.stop ≤ u.span.start) :
    S.Lined (us ++ [last]) := by
  induction us with
  | nil => exact .last ends (stands last (List.mem_singleton_self _)) empty
  | cons t us ih =>
    obtain ⟨here, inside⟩ := List.forall_mem_cons.mp inside
    obtain ⟨first, stands⟩ := List.forall_mem_cons.mp stands
    obtain ⟨before, ordered⟩ := List.pairwise_cons.mp ordered
    have rest := ih inside stands ordered
    cases us with
    | nil => exact .more here first (before last (List.mem_singleton_self _)) rest
    | cons u us => exact .more here first (before u (List.mem_cons_self ..)) rest

theorem lined_scan {tokens : List Token} (scanned : scan source ast.sourceEnd = .ok tokens) :
    (Layout.ofSource ast source).Lined tokens := by
  obtain ⟨cut, cuts, rfl⟩ := (scan_eq_ok_iff source _ tokens).mp scanned
  obtain ⟨us, last, same, tiled⟩ := tiled_tokensFrom ast.sourceEnd cuts
  have ends := tiled.ends
  have empty : last.span.stop = last.span.start := by rw [ends.2.2]
  rw [same]
  apply Layout.lined_of_tiled ends.1 (Nat.le_of_eq empty) fun t member => (tiled.filled t member).1
  · intro t member
    have inside := tiled.inside t member
    have boundaries := tiled.boundaries t member
    have ordered : t.span.start ≤ t.span.stop := by
      rcases List.mem_append.mp member with member | member
      · exact Nat.le_of_lt (tiled.filled t member).2
      · rw [List.mem_singleton.mp member, empty]
    obtain ⟨place, begins⟩ := tokensFrom_begin ast.sourceEnd cuts (same ▸ member)
    exact ⟨⟨ordered, ⟨inside.1, by omega, boundaries.1⟩, ⟨by omega, inside.2, boundaries.2⟩,
      begins⟩, place⟩
  · exact tiled.ordered

theorem laid_reserve (closed : ast.Closed) (apart : ast.Apart) (source : String) :
    (Layout.ofSource ast source).Laid (ast.reserve source.utf8ByteSize) where
  closed := Session.closed_reserve closed _
  keeps := .refl _
  apart := by
    constructor
    · intro p has
      rw [Ast.Has, Session.node?_reserve] at has
      exact apart.once p has
    · intro p p' q has has'
      rw [Ast.Has, Session.node?_reserve] at has has'
      exact apart.single p p' q has has'
  fits := fun p has new => absurd has.lt (Nat.not_lt.mpr new)
  reserved := rfl

/-- All that a source enters into the catalogue lies in its own offsets. -/
theorem parseSource_laid (closed : ast.Closed) (apart : ast.Apart) (source : String) :
    (Layout.ofSource ast source).Laid (parseSource source ast).2 := by
  have reserved := laid_reserve closed apart source
  rw [← byteLength_toList] at reserved
  rcases Session.parseSource_cases source ast with
    ⟨e, -, read⟩ | ⟨tokens, scanned, ⟨b, after, parsed, read⟩ | ⟨e, after, parsed, read⟩⟩
  · rw [read]
    exact reserved
  all_goals
    have laid := (parseProgram_laid (lined_scan scanned) reserved).1
    rw [parsed] at laid
    rw [read]
    exact laid

/-- A wrong token has its own place. -/
theorem parseSource_blamed (closed : ast.Closed) (apart : ast.Apart) {e : ParseError}
    (failed : (parseSource source ast).1 = .error (.parse e)) :
    (Layout.ofSource ast source).Blamed e := by
  have reserved := laid_reserve closed apart source
  rw [← byteLength_toList] at reserved
  rcases Session.parseSource_cases source ast with
    ⟨e', -, read⟩ | ⟨tokens, scanned, ⟨b, after, parsed, read⟩ | ⟨e', after, parsed, read⟩⟩
  · rw [read] at failed
    cases failed
  · rw [read] at failed
    cases failed
  · rw [read] at failed
    cases failed
    have blamed := (parseProgram_laid (lined_scan scanned) reserved).2
    rw [parsed] at blamed
    exact blamed e rfl

end Reading

section Sources

variable {sources : List String} {source : String}

theorem readAll_append (sources : List String) (source : String) :
    readAll (sources ++ [source]) = (parseSource source (readAll sources)).2 := by
  rw [readAll, List.foldl_append]
  rfl

theorem readAll_closed (sources : List String) :
    (readAll sources).Closed ∧ (readAll sources).Apart := by
  induction sources using List.reverseRecOn with
  | nil => exact ⟨Ast.closed_empty, Ast.apart_empty⟩
  | append_singleton sources source ih =>
    rw [readAll_append]
    have laid := parseSource_laid ih.1 ih.2 source
    exact ⟨laid.closed, laid.apart⟩

theorem readAll_laid (sources : List String) (source : String) :
    (Layout.ofSource (readAll sources) source).Laid (readAll (sources ++ [source])) := by
  rw [readAll_append]
  exact parseSource_laid (readAll_closed sources).1 (readAll_closed sources).2 source

theorem keeps_append (sources more : List String) :
    (readAll sources).Keeps (readAll (sources ++ more)) := by
  induction more using List.reverseRecOn with
  | nil => rw [List.append_nil]; exact .refl _
  | append_singleton more source ih =>
    rw [← List.append_assoc]
    have keeps := (readAll_laid (sources ++ more) source).keeps
    intro family i p found
    exact keeps family i p ((Session.node?_reserve ..).trans (ih family i p found))

theorem sourceEnd_append (sources : List String) (source : String) :
    (readAll (sources ++ [source])).sourceEnd = (readAll sources).sourceEnd +
      source.utf8ByteSize + 1 :=
  (readAll_laid sources source).reserved

theorem sourceEnd_le (sources more : List String) :
    (readAll sources).sourceEnd ≤ (readAll (sources ++ more)).sourceEnd := by
  induction more using List.reverseRecOn with
  | nil => rw [List.append_nil]
  | append_singleton more source ih =>
    have ends := sourceEnd_append (sources ++ more) source
    rw [← List.append_assoc]
    omega

/-- The nodes that the last source brought. -/
theorem has_append {p : Part} (has : (readAll (sources ++ [source])).Has p) :
    (readAll sources).Has p ∨ (readAll sources).count p.family ≤ p.number := by
  rcases Nat.lt_or_ge p.number ((readAll sources).count p.family) with old | new
  · obtain ⟨q, found, -⟩ := (readAll_closed sources).1.exists_node old
    have kept := keeps_append sources [source] _ _ q found
    rw [has] at kept
    rw [← Option.some.inj kept] at found
    exact .inl found
  · exact .inr new

/-- Every node lies in the offsets of the source that brought it. -/
theorem exists_source {p : Part} (has : (readAll sources).Has p) :
    ∃ before source after, sources = before ++ source :: after ∧
      (Layout.ofSource (readAll before) source).Fits p := by
  induction sources using List.reverseRecOn with
  | nil => exact absurd has Ast.not_has_empty
  | append_singleton sources source ih =>
    rcases has_append has with old | new
    · obtain ⟨before, first, after, rfl, fits⟩ := ih old
      exact ⟨before, first, after ++ [source], by rw [List.append_assoc]; rfl, fits⟩
    · refine ⟨sources, source, [], rfl, (readAll_laid sources source).fits p has ?_⟩
      rwa [Layout.ofSource, Ast.count_reserve]

end Sources

structure Forest (sources : List String) : Prop where
  unchanged : ∀ n, (readAll (sources.take n)).Keeps (readAll sources)
  numbered : ∀ family i p, (readAll sources).node? family i = some p → p.key = (family, i)
  inRange : ∀ family i p, (readAll sources).node? family i = some p →
    ∀ q ∈ p.parts, (readAll sources).node? q.family q.number = some q
  acyclic : ∀ k, ¬ Relation.TransGen (readAll sources).Child k k
  /-- A node is a part of one other at most, and only once of that. -/
  single : ∀ k k' c, (readAll sources).Child k c → (readAll sources).Child k' c → k = k'
  once : ∀ family i p, (readAll sources).node? family i = some p → (p.parts.map Part.key).Nodup
  ordered : ∀ family i p, (readAll sources).node? family i = some p → p.span.start ≤ p.span.stop
  placed : ∀ family i p, (readAll sources).node? family i = some p →
    ∃! n, ∃ source, sources[n]? = some source ∧ beginning sources n ≤ p.span.start ∧
      p.span.stop ≤ beginning sources n + source.utf8ByteSize
  covered : ∀ family i p, (readAll sources).node? family i = some p →
      ∀ q ∈ p.parts, q.span.Inside p.span
  disjoint : ∀ m n source, m < n → sources[m]? = some source →
    beginning sources m + source.utf8ByteSize < beginning sources n

section Forests

variable {sources : List String}

theorem beginning_lt {m n : Nat} {source : String} (before : m < n)
    (found : sources[m]? = some source) :
    beginning sources m + source.utf8ByteSize < beginning sources n := by
  have first : (sources.take n).take (m + 1) = sources.take m ++ [source] := by
    rw [List.take_take, Nat.min_eq_left before, List.take_add_one, found]
    rfl
  have ends := sourceEnd_append (sources.take m) source
  have grows := sourceEnd_le ((sources.take n).take (m + 1)) ((sources.take n).drop (m + 1))
  rw [List.take_append_drop, first] at grows
  unfold beginning
  omega

theorem unique_placed {m n : Nat} {source source' : String} {s : Span} (ordered : s.start ≤ s.stop)
    (found : sources[m]? = some source) (inside : beginning sources m ≤ s.start)
    (stop : s.stop ≤ beginning sources m + source.utf8ByteSize)
    (found' : sources[n]? = some source') (inside' : beginning sources n ≤ s.start)
    (stop' : s.stop ≤ beginning sources n + source'.utf8ByteSize) : m = n := by
  rcases Nat.lt_trichotomy m n with before | same | behind
  · have := beginning_lt before found
    omega
  · exact same
  · have := beginning_lt behind found'
    omega

/-- The span of a node is in order, lies in one source alone and covers the node's parts. -/
theorem existsUnique_placed {p : Part} (has : (readAll sources).Has p) :
    p.span.start ≤ p.span.stop ∧ (∀ q ∈ p.parts, q.span.Inside p.span) ∧
    ∃! n, ∃ source, sources[n]? = some source ∧ beginning sources n ≤ p.span.start ∧
      p.span.stop ≤ beginning sources n + source.utf8ByteSize := by
  obtain ⟨before, source, after, rfl, fits⟩ := exists_source has
  have ordered := fits.fine.ordered
  have here : beginning (before ++ source :: after) before.length = (readAll before).sourceEnd := by
    rw [beginning, List.take_left' rfl]
  have found : (before ++ source :: after)[before.length]? = some source := by simp
  have inside : beginning (before ++ source :: after) before.length ≤ p.span.start := by
    rw [here]
    exact fits.fine.starts.1
  have stop : p.span.stop ≤ beginning (before ++ source :: after) before.length +
      source.utf8ByteSize := by
    rw [here]
    exact fits.fine.stops.2.1
  refine ⟨ordered, fits.inside, before.length, ⟨source, found, inside, stop⟩, ?_⟩
  rintro n ⟨source', found', inside', stop'⟩
  exact unique_placed ordered found' inside' stop' found inside stop

end Forests

theorem readAll_forest (sources : List String) : Forest sources := by
  have closed := (readAll_closed sources).1
  have apart := (readAll_closed sources).2
  constructor
  case unchanged =>
    intro n
    have keeps := keeps_append (sources.take n) (sources.drop n)
    rwa [List.take_append_drop] at keeps
  case numbered =>
    exact fun family i p found =>
      Prod.ext (Ast.family_of_node? found) (closed.numbered family i p found)
  case inRange => exact fun family i p found => closed.parts p (closed.has found)
  case acyclic => exact fun k => closed.acyclic
  case single => exact fun k k' c => closed.child_unique apart
  case once => exact fun family i p found => closed.nodup_keys apart (closed.has found)
  case ordered => exact fun family i p found => (existsUnique_placed (closed.has found)).1
  case placed => exact fun family i p found => (existsUnique_placed (closed.has found)).2.2
  case covered => exact fun family i p found => (existsUnique_placed (closed.has found)).2.1
  case disjoint => exact fun m n source before found => beginning_lt before found

end ScriptKit
