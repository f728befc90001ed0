import Mathlib.Data.List.Basic
import ScriptFront.Expr

set_option autoImplicit false

/-! # What the serial forms of a tree tell

A node is determined by its row and its parts, since the row has the kind, the span and the name or
value (`Expr.eq_of_row`). A row also says how many parts there are, so a list of rows can be read in
one way only, whatever stands behind it (`Expr.rows_append_inj`): first the topmost row, then one
part after the other. The outline of a tree has the same nodes, and listing them parents first gives
the outlines of the nodes that the tree itself lists (`Expr.map_outline_walk`). -/

namespace ScriptFront

/-! ## Listing the nodes of an outline -/

namespace Outline

mutual

/-- An outline and everything below it, parents before children. -/
def walk : Outline → List Outline
  | node kind span label children => node kind span label children :: walkEach children

/-- Outlines and everything below them, one outline after the other. -/
def walkEach : List Outline → List Outline
  | [] => []
  | outline :: others => outline.walk ++ walkEach others

end

theorem walkEach_eq_flatMap (outlines : List Outline) :
    walkEach outlines = outlines.flatMap walk := by
  induction outlines with
  | nil => rfl
  | cons outline others ih => rw [walkEach, ih, List.flatMap_cons]

/-- The row of the topmost node of an outline. -/
def row : Outline → Row
  | node kind span label children => ⟨kind, span, children.length, label⟩

end Outline

namespace Expr

/-! ## Nodes and their parts -/

/-- What holds of a node whenever it holds of its parts holds of every tree. -/
theorem induction_on_children {motive : Expr → Prop}
    (node : ∀ e : Expr, (∀ child ∈ e.children, motive child) → motive e) (e : Expr) :
    motive e := by
  induction e with
  | print _ _ ih | assign _ _ _ ih => exact node _ (List.forall_mem_singleton.2 ih)
  | binary _ _ _ _ ihl ihr =>
      exact node _ (List.forall_mem_cons.2 ⟨ihl, List.forall_mem_singleton.2 ihr⟩)
  | var | literal => exact node _ (fun _ hchild => absurd hchild List.not_mem_nil)

theorem outline_eq (e : Expr) :
    e.outline = .node e.kind e.span e.label (e.children.map outline) := by
  cases e <;> rfl

/-- Trees with the same outline are the same. -/
theorem outline_injective {e e' : Expr} (h : e.outline = e'.outline) : e = e' := by
  have hread := congrArg ofOutline? h
  rw [ofOutline?_outline, ofOutline?_outline] at hread
  exact Option.some.inj hread

/-- A node is determined by its row and its parts. -/
theorem eq_of_row {e e' : Expr} (hrow : e.row = e'.row) (hchildren : e.children = e'.children) :
    e = e' := by
  obtain ⟨hkind, hspan, -, hlabel⟩ := Row.mk.inj hrow
  apply outline_injective
  rw [outline_eq, outline_eq e', hkind, hspan, hlabel, hchildren]

/-! ## Reading rows -/

theorem rows_eq (e : Expr) : e.rows = e.row :: e.children.flatMap rows := by
  rw [rows, walk_eq, List.map_cons, List.map_flatMap]
  rfl

/-- If each of some trees can be told from the rows that begin with it, so can all of them in a row,
    when their number is known. -/
theorem flatMap_rows_append_inj {trees trees' : List Expr} {rest rest' : List Row}
    (hread : ∀ tree ∈ trees, ∀ (tree' : Expr) (rest rest' : List Row),
      tree.rows ++ rest = tree'.rows ++ rest' → tree = tree' ∧ rest = rest')
    (hlength : trees.length = trees'.length)
    (h : trees.flatMap rows ++ rest = trees'.flatMap rows ++ rest') :
    trees = trees' ∧ rest = rest' := by
  induction trees generalizing trees' with
  | nil =>
      obtain rfl := List.length_eq_zero_iff.1 hlength.symm
      exact ⟨rfl, h⟩
  | cons tree trees ih =>
      cases trees' with
      | nil => simp at hlength
      | cons tree' trees' =>
          obtain ⟨htree, htrees⟩ := List.forall_mem_cons.1 hread
          simp only [List.flatMap_cons, List.append_assoc] at h
          obtain ⟨rfl, hothers⟩ := htree tree' _ _ h
          obtain ⟨rfl, hrest⟩ := ih htrees (Nat.succ.inj hlength) hothers
          exact ⟨rfl, hrest⟩

/-- The rows of a tree end where the tree ends, and tell all of it. -/
theorem rows_append_inj {e e' : Expr} {rest rest' : List Row}
    (h : e.rows ++ rest = e'.rows ++ rest') : e = e' ∧ rest = rest' := by
  induction e using induction_on_children generalizing e' rest rest' with
  | node e ih =>
      rw [rows_eq, rows_eq e', List.cons_append, List.cons_append] at h
      obtain ⟨hrow, hparts⟩ := List.cons.inj h
      -- the row says into how many trees the rows behind it are to be divided
      have hlength : e.children.length = e'.children.length := congrArg Row.arity hrow
      obtain ⟨hchildren, hrest⟩ := flatMap_rows_append_inj
        (fun child hchild _ _ _ => ih child hchild) hlength hparts
      exact ⟨eq_of_row hrow hchildren, hrest⟩

/-! ## Outlines and rows -/

/-- The nodes of the outline are the outlines of the nodes, in the same order. -/
theorem map_outline_walk (e : Expr) : e.walk.map outline = e.outline.walk := by
  induction e using induction_on_children with
  | node e ih =>
      have hparts : (e.children.flatMap walk).map outline =
          (e.children.map outline).flatMap Outline.walk := by
        rw [List.map_flatMap, List.flatMap_map]
        exact List.flatMap_congr ih
      rw [walk_eq, List.map_cons, hparts, outline_eq e, Outline.walk, Outline.walkEach_eq_flatMap]

theorem row_outline (e : Expr) : e.outline.row = e.row := by
  rw [outline_eq, Outline.row, List.length_map]
  rfl

/-- **The serial forms of a tree identify it.** Two trees are the same, with their spans, if and
    only if their outlines are, and if and only if the rows of their nodes are. The nodes are listed
    in the order in which their outlines stand in the outline of the tree, parents first, and the
    rows of one tree are never just the beginning of those of another. -/
theorem identified_by_serial_forms (e e' : Expr) :
    (e = e' ↔ e.outline = e'.outline) ∧ (e = e' ↔ e.rows = e'.rows) ∧
      e.walk.map outline = e.outline.walk ∧ e.rows = e.outline.walk.map Outline.row ∧
      (e.rows <+: e'.rows ↔ e = e') := by
  refine ⟨⟨congrArg outline, outline_injective⟩, ⟨congrArg rows, fun h => ?_⟩,
    map_outline_walk e, ?_, ⟨?_, fun h => ?_⟩⟩
  · exact (@rows_append_inj e e' [] [] (by rw [h])).1
  · rw [← map_outline_walk, List.map_map, rows]
    exact List.map_congr_left (fun node _ => (row_outline node).symm)
  · rintro ⟨rest, hrest⟩
    exact (@rows_append_inj e e' rest [] (by rw [hrest, List.append_nil])).1
  · obtain rfl := h
    exact List.prefix_rfl

end Expr

end ScriptFront
