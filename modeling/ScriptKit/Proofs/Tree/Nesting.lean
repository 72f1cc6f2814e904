import Mathlib.Data.List.Nodup
import ScriptKit.Proofs.Tree.Catalogue

/-! Nodes as parts of one another.

A finished node is loose until it becomes a part of another one. Entering a node uses up the loose
nodes that it is made of and leaves it loose itself, so no node is ever a part of two. -/

namespace ScriptKit

def Span.Inside (s outer : Span) : Prop :=
  outer.start ≤ s.start ∧ s.stop ≤ outer.stop

namespace Span

variable {s a b : Span}

theorem inside_join_left (a b : Span) : a.Inside (a.join b) :=
  ⟨Nat.min_le_left .., Nat.le_max_left ..⟩

theorem inside_join_right (a b : Span) : b.Inside (a.join b) :=
  ⟨Nat.min_le_right .., Nat.le_max_right ..⟩

theorem inside_join_between (behind : a.start ≤ s.start) (before : s.stop ≤ b.stop) :
    s.Inside (a.join b) :=
  ⟨Nat.le_trans (Nat.min_le_left ..) behind, Nat.le_trans before (Nat.le_max_right ..)⟩

end Span

namespace Part

def span : Part → Span
  | expr e => e.span
  | stmt s => s.span
  | block b => b.span
  | func f => f.span

def key (p : Part) : Family × Nat :=
  (p.family, p.number)

theorem sizeOf_lt_of_mem_exprs {q : Part} {es : List Expr} (member : q ∈ es.map expr) :
    sizeOf q < sizeOf es + 1 := by
  obtain ⟨e, inside, rfl⟩ := List.mem_map.mp member
  have := List.sizeOf_lt_of_mem inside
  rw [expr.sizeOf_spec]
  omega

theorem sizeOf_lt_of_mem_ofExpr {q : Part} {e : Expr} (member : q ∈ ofExpr e) :
    sizeOf q < sizeOf e + 1 := by
  cases e with
  | literal | name => cases member
  | binary | index | unary | function =>
    simp only [ofExpr, List.mem_cons, List.not_mem_nil, or_false] at member
    rcases member with rfl | rfl <;> simp <;> omega
  | call node callee args =>
    rcases List.mem_cons.mp member with rfl | member
    · simp
      omega
    · have := sizeOf_lt_of_mem_exprs member
      simp
      omega
  | array node items =>
    have := sizeOf_lt_of_mem_exprs member
    simp
    omega

/-- A node is smaller than the one it is a part of. -/
theorem sizeOf_lt_of_mem {p q : Part} (member : q ∈ p.parts) : sizeOf q < sizeOf p := by
  cases p with
  | expr e =>
    have := sizeOf_lt_of_mem_ofExpr member
    rw [expr.sizeOf_spec]
    omega
  | stmt s =>
    cases s <;> cases List.mem_singleton.mp member <;>
      simp only [stmt.sizeOf_spec, expr.sizeOf_spec, block.sizeOf_spec, func.sizeOf_spec,
        Stmt.expr.sizeOf_spec, Stmt.declare.sizeOf_spec, Stmt.assign.sizeOf_spec,
        Stmt.function.sizeOf_spec, Stmt.block.sizeOf_spec] <;>
      omega
  | block b =>
    obtain ⟨node, ss⟩ := b
    obtain ⟨s, inside, rfl⟩ := List.mem_map.mp member
    have := List.sizeOf_lt_of_mem inside
    simp [Block.stmts] at this ⊢
    omega
  | func f =>
    obtain ⟨node, name, params, body⟩ := f
    cases body <;> cases List.mem_singleton.mp member <;> simp [ofBody, Func.body] <;> omega

end Part

namespace Ast

/-- No node is a part of two, nor twice a part of one. -/
structure Apart (ast : Ast) : Prop where
  once : ∀ p, ast.Has p → p.parts.Nodup
  single : ∀ p p' q, ast.Has p → ast.Has p' → q ∈ p.parts → q ∈ p'.parts → p = p'

/-- Nodes of the catalogue that are not yet a part of any. -/
structure Loose (ast : Ast) (held : List Part) : Prop where
  has : ∀ q ∈ held, ast.Has q
  free : ∀ q ∈ held, ∀ p, ast.Has p → q ∉ p.parts
  nodup : held.Nodup

section Entering

variable {ast : Ast} {p q : Part} {held held' : List Part}

theorem Has.unique (has : ast.Has p) (has' : ast.Has q) (same : p.key = q.key) : p = q := by
  obtain ⟨family, number⟩ := Prod.mk.inj same
  unfold Has at has has'
  rw [family, number, has'] at has
  exact (Option.some.inj has).symm

theorem not_has_next (next : p.number = ast.count p.family) : ¬ ast.Has p := by
  intro has
  have := has.lt
  omega

theorem has_enter_iff (next : p.number = ast.count p.family) :
    (ast.enter p).Has q ↔ q = p ∨ ast.Has q := by
  constructor
  · intro has
    rw [Has, node?_enter] at has
    split at has
    · exact .inl (Option.some.inj has).symm
    · exact .inr has
  · rintro (rfl | has)
    · exact has_enter next
    · exact (keeps_enter ast p).has has

theorem not_has_empty : ¬ ({} : Ast).Has p := by
  intro has
  have inside := has.lt
  cases family : p.family <;> simp [family, count] at inside

theorem apart_empty : ({} : Ast).Apart := by
  constructor
  · intro p has
    exact absurd has not_has_empty
  · intro p _ _ has
    exact absurd has not_has_empty

theorem Loose.perm (loose : ast.Loose held) (same : held.Perm held') : ast.Loose held' where
  has := fun q member => loose.has q (same.mem_iff.mpr member)
  free := fun q member => loose.free q (same.mem_iff.mpr member)
  nodup := same.nodup_iff.mp loose.nodup

theorem Apart.enter (apart : ast.Apart) (loose : ast.Loose (p.parts ++ held))
    (next : p.number = ast.count p.family) : (ast.enter p).Apart := by
  have free : ∀ q ∈ p.parts, ∀ r, ast.Has r → q ∉ r.parts :=
    fun q member => loose.free q (List.mem_append_left _ member)
  constructor
  · intro r has
    rcases (has_enter_iff next).mp has with rfl | has
    · exact loose.nodup.of_append_left
    · exact apart.once r has
  · intro r r' q has has' member member'
    rcases (has_enter_iff next).mp has with rfl | old <;> rcases (has_enter_iff next).mp has' with
      rfl | old'
    · rfl
    · exact absurd member' (free q member r' old')
    · exact absurd member (free q member' r old)
    · exact apart.single r r' q old old' member member'

theorem Loose.enter (loose : ast.Loose (p.parts ++ held)) (closed : ast.Closed)
    (next : p.number = ast.count p.family) : (ast.enter p).Loose (p :: held) := by
  have others : ∀ q ∈ held, ast.Has q :=
    fun q member => loose.has q (List.mem_append_right _ member)
  have own : ∀ q ∈ p.parts, ast.Has q := fun q member => loose.has q (List.mem_append_left _ member)
  have new : ¬ ast.Has p := not_has_next next
  constructor
  case has =>
    intro q member
    rcases List.mem_cons.mp member with rfl | member
    · exact has_enter next
    · exact (keeps_enter ast p).has (others q member)
  case free =>
    intro q member r has inside
    -- Parts are older than the nodes made of them, and the new node is the youngest.
    have older : ast.Has q := by
      rcases (has_enter_iff next).mp has with rfl | has
      · exact own q inside
      · exact closed.parts r has q inside
    rcases List.mem_cons.mp member with rfl | other
    · exact new older
    · rcases (has_enter_iff next).mp has with rfl | old
      · exact (List.disjoint_of_nodup_append loose.nodup) inside other
      · exact loose.free q (List.mem_append_right _ other) r old inside
  case nodup =>
    exact List.nodup_cons.mpr ⟨fun member => new (others p member), loose.nodup.of_append_right⟩

end Entering

def Child (ast : Ast) (parent child : Family × Nat) : Prop :=
  ∃ p q, ast.node? parent.1 parent.2 = some p ∧ q ∈ p.parts ∧ q.key = child

section Children

variable {ast : Ast} {k k' c : Family × Nat}

theorem Closed.child (closed : ast.Closed) (child : ast.Child k c) :
    ∃ p q, ast.Has p ∧ p.key = k ∧ ast.Has q ∧ q.key = c ∧ q ∈ p.parts := by
  obtain ⟨p, q, found, member, rfl⟩ := child
  have has := closed.has found
  refine ⟨p, q, has, ?_, closed.parts p has q member, rfl, member⟩
  exact Prod.ext (family_of_node? found) (closed.numbered _ _ p found)

theorem Closed.child_unique (closed : ast.Closed) (apart : ast.Apart) (child : ast.Child k c)
    (child' : ast.Child k' c) : k = k' := by
  obtain ⟨p, q, has, rfl, part, key, member⟩ := closed.child child
  obtain ⟨p', q', has', rfl, part', key', member'⟩ := closed.child child'
  cases part.unique part' (key.trans key'.symm)
  rw [apart.single p p' q has has' member member']

/-- Going from a node to its parts never leads back. -/
theorem Closed.acyclic (closed : ast.Closed) : ¬ Relation.TransGen ast.Child k k := by
  have smaller : ∀ c, Relation.TransGen ast.Child k c →
      ∃ p q, ast.Has p ∧ p.key = k ∧ ast.Has q ∧ q.key = c ∧ sizeOf q < sizeOf p := by
    intro c steps
    induction steps with
    | single child =>
      obtain ⟨p, q, has, key, part, key', member⟩ := closed.child child
      exact ⟨p, q, has, key, part, key', Part.sizeOf_lt_of_mem member⟩
    | tail _ child ih =>
      obtain ⟨p, q, has, key, part, key', less⟩ := ih
      obtain ⟨p', r, has', again, part', key'', member⟩ := closed.child child
      cases part.unique has' (key'.trans again.symm)
      exact ⟨p, r, has, key, part', key'', Nat.lt_trans (Part.sizeOf_lt_of_mem member) less⟩
  intro cycle
  obtain ⟨p, q, has, key, part, key', less⟩ := smaller k cycle
  cases has.unique part (key.trans key'.symm)
  exact Nat.lt_irrefl _ less

theorem Closed.nodup_keys (closed : ast.Closed) (apart : ast.Apart) {p : Part} (has : ast.Has p) :
    (p.parts.map Part.key).Nodup := by
  apply List.Nodup.map_on ?_ (apart.once p has)
  intro q member q' member' same
  exact (closed.parts p has q member).unique (closed.parts p has q' member') same

end Children

end Ast

end ScriptKit
