import ScriptFront.Proofs.Grammar.Derivation

set_option autoImplicit false

/-! # The spans of derived trees

A tree that is derived from items spans from the first of them to the last one, parentheses aside:
these are dropped at once (`Built`), and what is left is the tokens of the tree in the order of the
source. When the tokens stand one behind the other, so do the parts of the tree. -/

namespace ScriptFront

/-- The span of an expression contains that of another one. -/
structure Encloses (outer inner : Expr) : Prop where
  lo : outer.span.lo ≤ inner.span.lo
  hi : inner.span.hi ≤ outer.span.hi

/-- An expression begins no later than another one. -/
def StartsBy (a b : Expr) : Prop := a.span.lo ≤ b.span.lo

theorem Encloses.refl (e : Expr) : Encloses e e := ⟨Int.le_refl _, Int.le_refl _⟩

theorem Encloses.trans {a b c : Expr} (hab : Encloses a b) (hbc : Encloses b c) :
    Encloses a c :=
  ⟨Int.le_trans hab.lo hbc.lo, Int.le_trans hbc.hi hab.hi⟩

/-- What is enclosed in front of something begins before whatever that encloses. -/
theorem StartsBy.of_apart {a b x y : Expr} (h : a.span.hi ≤ b.span.lo) (hx : Encloses a x)
    (hpositive : x.span.lo < x.span.hi) (hy : Encloses b y) : StartsBy x y := by
  have hhi := hx.hi
  have hlo := hy.lo
  show x.span.lo ≤ y.span.lo
  omega

namespace Grammar

/-! ## Runs of tokens -/

/-- Whether tokens of a kind are parentheses. -/
def isParen : TokenKind → Bool
  | .leftParen | .rightParen => true
  | _ => false

theorem TermSign.not_paren {kind : TokenKind} {operator : Operator} (h : TermSign kind operator) :
    isParen kind = false := by
  cases h <;> rfl

theorem FactSign.not_paren {kind : TokenKind} {operator : Operator} (h : FactSign kind operator) :
    isParen kind = false := by
  cases h <;> rfl

/-- The items that are no parentheses. -/
def bare (items : List Item) : List Item :=
  items.filter fun item => !isParen item.kind

@[simp] theorem bare_nil : bare [] = [] := rfl

@[simp] theorem bare_append (a b : List Item) : bare (a ++ b) = bare a ++ bare b :=
  List.filter_append ..

theorem bare_cons {item : Item} {kind : TokenKind} (items : List Item) (h : item.kind = kind)
    (hkind : isParen kind = false) : bare (item :: items) = item :: bare items := by
  subst h
  exact List.filter_cons_of_pos (Bool.not_eq_true' _ ▸ hkind)

theorem bare_cons_paren {item : Item} {kind : TokenKind} (items : List Item) (h : item.kind = kind)
    (hkind : isParen kind = true) : bare (item :: items) = bare items := by
  subst h
  exact List.filter_cons_of_neg (by simp [hkind])

/-- The tree is derived from that run of the items. -/
def MadeOf (items run : List Item) (tree : Expr) : Prop :=
  run <:+: items ∧ ∃ phrase depth, Derives phrase depth run tree

/-- The tree is derived from a run of the items. -/
def HasRun (items : List Item) (tree : Expr) : Prop := ∃ run, MadeOf items run tree

namespace HasRun

variable {items whole : List Item} {tree : Expr}

theorem self {phrase : Phrase} {depth : Nat} (h : Derives phrase depth items tree) :
    HasRun items tree := ⟨items, List.infix_rfl, phrase, depth, h⟩

theorem extend (h : HasRun items tree) (hitems : items <:+: whole) : HasRun whole tree := by
  obtain ⟨run, hrun, hderives⟩ := h
  exact ⟨run, hrun.trans hitems, hderives⟩

/-- A run of the whole holds the runs of its parts. -/
theorem walk (h : HasRun whole tree)
    (hchildren : ∀ child ∈ tree.children, ∃ items, items <:+: whole ∧
      ∀ node ∈ child.walk, HasRun items node) : ∀ node ∈ tree.walk, HasRun whole node := by
  intro node hnode
  rw [Expr.walk_eq] at hnode
  rcases List.mem_cons.1 hnode with rfl | hnode
  · exact h
  · obtain ⟨child, hchild, hnode⟩ := List.mem_flatMap.1 hnode
    obtain ⟨items, hitems, hrun⟩ := hchildren child hchild
    exact (hrun node hnode).extend hitems

/-- A sign and its operands hold the runs of the operands. -/
theorem binary {lefts rights : List Item} {sign : Item} {span : Span} {operator : Operator}
    {left right : Expr} (h : HasRun (lefts ++ sign :: rights) (.binary span operator left right))
    (hleft : ∀ node ∈ left.walk, HasRun lefts node)
    (hright : ∀ node ∈ right.walk, HasRun rights node) :
    ∀ node ∈ (Expr.binary span operator left right).walk,
      HasRun (lefts ++ sign :: rights) node :=
  h.walk (List.forall_mem_cons.2 ⟨⟨lefts, (List.prefix_append ..).isInfix, hleft⟩,
    List.forall_mem_singleton.2 ⟨rights, ⟨lefts ++ [sign], [], by simp⟩, hright⟩⟩)

end HasRun

/-- Whatever is in a derived tree is derived from a run of its items. -/
theorem Derives.hasRun {phrase : Phrase} {depth : Nat} {items : List Item} {tree : Expr}
    (h : Derives phrase depth items tree) : ∀ node ∈ tree.walk, HasRun items node := by
  induction h with
  | @print depth word items operand hword hoperand ih =>
      have hself := HasRun.self (.print hword hoperand)
      exact hself.walk (List.forall_mem_singleton.2
        ⟨items, (List.suffix_cons ..).isInfix, ih⟩)
  | @target depth name equals items value hname hequals hvalue ih =>
      have hself := HasRun.self (.target hname hequals hvalue)
      exact hself.walk (List.forall_mem_singleton.2
        ⟨items, (List.suffix_append [name, equals] items).isInfix, ih⟩)
  | ofTerm _ ih | ofFact _ ih | ofAtom _ ih => exact ih
  | sum hleft hsign hright ihl ihr => exact (HasRun.self (.sum hleft hsign hright)).binary ihl ihr
  | product hleft hsign hright ihl ihr =>
      exact (HasRun.self (.product hleft hsign hright)).binary ihl ihr
  | @name depth item hitem =>
      have hself := HasRun.self (@Derives.name depth item hitem)
      exact hself.walk (by simp [Expr.children])
  | @integer depth item hitem =>
      have hself := HasRun.self (@Derives.integer depth item hitem)
      exact hself.walk (by simp [Expr.children])
  | @parens depth opening closing items tree _ _ _ ih =>
      intro node hnode
      exact (ih node hnode).extend ⟨[opening], [closing], rfl⟩

/-- Whatever is in a tree is derived from a run of the items. -/
theorem MadeOf.hasRun {items run : List Item} {tree : Expr} (h : MadeOf items run tree) :
    ∀ node ∈ tree.walk, HasRun items node := by
  intro node hnode
  obtain ⟨hrun, phrase, depth, hderives⟩ := h
  exact (hderives.hasRun node hnode).extend hrun

/-! ## Trees without parentheses -/

/-- The tree is made of the items in their order, none of which is a parenthesis any more. -/
inductive Built : List Item → Expr → Prop
  | var {name : Item} : Built [name] (.var name.span name.token.payload)
  | literal {value : Item} : Built [value] (.literal value.span value.token.payload)
  | print {word : Item} {items : List Item} {operand : Expr} :
      Built items operand →
      Built (word :: items) (.print (word.span.combine operand.span) operand)
  | assign {name equals : Item} {items : List Item} {value : Expr} :
      Built items value → Built (name :: equals :: items)
        (.assign (name.span.combine value.span) name.token.payload value)
  | binary {lefts rights : List Item} {sign : Item} {operator : Operator}
      {left right : Expr} : Built lefts left → Built rights right →
      Built (lefts ++ sign :: rights)
        (.binary (left.span.combine right.span) operator left right)

/-- Apart from parentheses a tree is made of all the items that it is derived from. -/
theorem Derives.built {phrase : Phrase} {depth : Nat} {items : List Item} {tree : Expr}
    (h : Derives phrase depth items tree) : Built (bare items) tree := by
  induction h with
  | print hword _ ih =>
      rw [bare_cons _ hword rfl]
      exact .print ih
  | target hname hequals _ ih =>
      rw [bare_cons _ hname rfl, bare_cons _ hequals rfl]
      exact .assign ih
  | ofTerm _ ih | ofFact _ ih | ofAtom _ ih => exact ih
  | sum _ hsign _ ihl ihr =>
      rw [bare_append, bare_cons _ rfl hsign.not_paren]
      exact .binary ihl ihr
  | product _ hsign _ ihl ihr =>
      rw [bare_append, bare_cons _ rfl hsign.not_paren]
      exact .binary ihl ihr
  | name hitem =>
      rw [bare_cons _ hitem rfl]
      exact .var
  | integer hitem =>
      rw [bare_cons _ hitem rfl]
      exact .literal
  | parens hopening _ hclosing ih =>
      rw [List.cons_append, bare_cons_paren _ hopening rfl, bare_append,
        bare_cons_paren _ hclosing rfl, bare_nil, List.append_nil]
      exact ih

/-! ## Spans -/

/-- The items stand one behind the other, and none of them is empty. -/
structure Ordered (items : List Item) : Prop where
  positive : ∀ item ∈ items, item.span.lo < item.span.hi
  apart : items.Pairwise fun a b => a.span.hi ≤ b.span.lo

namespace Ordered

theorem sublist {items part : List Item} (h : Ordered items) (hpart : part.Sublist items) :
    Ordered part :=
  ⟨fun item hitem => h.positive item (hpart.subset hitem), h.apart.sublist hpart⟩

/-- The first item begins before the others. -/
theorem lo_lt {item : Item} {items : List Item} (h : Ordered (item :: items)) :
    ∀ other ∈ items, item.span.lo < other.span.lo := by
  intro other hother
  have hpositive := h.positive item List.mem_cons_self
  have hle := (List.pairwise_cons.1 h.apart).1 other hother
  omega

end Ordered

/-- The span of a node is not empty and contains those of its children, and these are one behind
    the other. -/
structure Fits (node : Expr) : Prop where
  positive : node.span.lo < node.span.hi
  contains : ∀ child ∈ node.children, Encloses node child
  apart : node.children.Pairwise fun a b => a.span.hi ≤ b.span.lo

/-- A node fits that begins in front of its only child and ends with it. -/
theorem Fits.single {node child : Expr} {front : Span} (hchildren : node.children = [child])
    (hnode : node.span = front.combine child.span) (hfront : front.lo < child.span.lo)
    (hchild : child.span.lo < child.span.hi) : Fits node := by
  refine ⟨?_, ?_, ?_⟩
  · rw [hnode]
    exact Int.lt_trans hfront hchild
  · rw [hchildren, List.forall_mem_singleton]
    exact ⟨by rw [hnode]; exact Int.le_of_lt hfront, by rw [hnode]; exact Int.le_refl _⟩
  · rw [hchildren]
    exact List.pairwise_singleton ..

/-- A node fits that begins with the first of its two children and ends with the second, if they
    are one behind the other. -/
theorem Fits.pair {operator : Operator} {left right : Expr} (hleft : left.span.lo < left.span.hi)
    (hright : right.span.lo < right.span.hi) (happart : left.span.hi ≤ right.span.lo) :
    Fits (.binary (left.span.combine right.span) operator left right) := by
  have hlo : left.span.lo ≤ right.span.lo := by omega
  have hhi : left.span.hi ≤ right.span.hi := by omega
  refine ⟨show left.span.lo < right.span.hi by omega, ?_, List.pairwise_pair.2 happart⟩
  exact List.forall_mem_cons.2 ⟨⟨Int.le_refl _, hhi⟩,
    List.forall_mem_singleton.2 ⟨hlo, Int.le_refl _⟩⟩

namespace Built

variable {items : List Item} {tree : Expr}

/-- A tree spans from its first item to its last one. -/
theorem extent (h : Built items tree) : ∃ first last, items.head? = some first ∧
    items.getLast? = some last ∧ tree.span = first.span.combine last.span := by
  induction h with
  | @var item | @literal item => exact ⟨item, item, rfl, rfl, rfl⟩
  | @print word items operand _ ih =>
      obtain ⟨first, last, -, hlast, hspan⟩ := ih
      exact ⟨word, last, rfl, by rw [List.getLast?_cons, hlast]; rfl,
        by rw [Expr.span, hspan]; rfl⟩
  | @assign name equals items value _ ih =>
      obtain ⟨first, last, -, hlast, hspan⟩ := ih
      exact ⟨name, last, rfl, by rw [List.getLast?_cons, List.getLast?_cons, hlast]; rfl,
        by rw [Expr.span, hspan]; rfl⟩
  | @binary lefts rights sign operator left right _ _ ihl ihr =>
      obtain ⟨first, _, hfirst, -, hleft⟩ := ihl
      obtain ⟨_, last, -, hlast, hright⟩ := ihr
      refine ⟨first, last, ?_, ?_, by rw [Expr.span, hleft, hright]; rfl⟩
      · rw [List.head?_append, hfirst]; rfl
      · rw [List.getLast?_append, List.getLast?_cons, hlast]; rfl

/-- The span of a tree begins with one of its items and ends with one of them. -/
theorem exists_bounds (h : Built items tree) : ∃ first ∈ items, ∃ last ∈ items,
    tree.span = first.span.combine last.span := by
  obtain ⟨first, last, hfirst, hlast, hspan⟩ := h.extent
  exact ⟨first, List.mem_of_head? hfirst, last, List.mem_of_getLast? hlast, hspan⟩

/-- The span of a tree is not empty, if the items stand one behind the other. -/
theorem positive (h : Built items tree) (hordered : Ordered items) :
    tree.span.lo < tree.span.hi := by
  obtain ⟨first, last, hfirst, hlast, hspan⟩ := h.extent
  rw [hspan]
  show first.span.lo < last.span.hi
  have hmem := List.mem_of_getLast? hlast
  have hpositive := hordered.positive last hmem
  obtain ⟨others, rfl⟩ := List.head?_eq_some_iff.1 hfirst
  rcases List.mem_cons.1 hmem with rfl | hothers
  · exact hpositive
  · have hlo := hordered.lo_lt last hothers
    omega

/-- Every node of a tree fits, if the items stand one behind the other. -/
theorem fits (h : Built items tree) (hordered : Ordered items) :
    ∀ node ∈ tree.walk, Fits node := by
  induction h with
  | @var item | @literal item =>
      intro node hnode
      obtain rfl := List.mem_singleton.1 hnode
      exact ⟨hordered.positive item List.mem_cons_self, by simp [Expr.children], .nil⟩
  | @print word items operand hoperand ih =>
      have hrest := hordered.sublist (List.sublist_cons_self word items)
      intro node hnode
      rcases List.mem_cons.1 hnode with rfl | hnode
      · obtain ⟨first, hfirst, last, -, hspan⟩ := hoperand.exists_bounds
        have hlo : word.span.lo < operand.span.lo := by
          rw [hspan]
          exact hordered.lo_lt first hfirst
        exact .single rfl rfl hlo (hoperand.positive hrest)
      · exact ih hrest node hnode
  | @assign name equals items value hvalue ih =>
      have hrest := hordered.sublist (List.sublist_append_right [name, equals] items)
      intro node hnode
      rcases List.mem_cons.1 hnode with rfl | hnode
      · obtain ⟨first, hfirst, last, -, hspan⟩ := hvalue.exists_bounds
        have hlo : name.span.lo < value.span.lo := by
          rw [hspan]
          exact hordered.lo_lt first (List.mem_cons_of_mem _ hfirst)
        exact .single rfl rfl hlo (hvalue.positive hrest)
      · exact ih hrest node hnode
  | @binary lefts rights sign operator left right hleft hright ihl ihr =>
      have hlefts := hordered.sublist (List.sublist_append_left lefts (sign :: rights))
      have hrights := hordered.sublist
        ((List.sublist_cons_self sign rights).trans (List.sublist_append_right lefts _))
      intro node hnode
      rcases List.mem_cons.1 hnode with rfl | hnode
      · obtain ⟨first, -, last, hlast, hl⟩ := hleft.exists_bounds
        obtain ⟨first', hfirst', last', -, hr⟩ := hright.exists_bounds
        have happart : left.span.hi ≤ right.span.lo := by
          rw [hl, hr]
          exact (List.pairwise_append.1 hordered.apart).2.2 last hlast first'
            (List.mem_cons_of_mem _ hfirst')
        exact .pair (hleft.positive hlefts) (hright.positive hrights) happart
      rcases List.mem_append.1 hnode with hnode | hnode
      · exact ihl hlefts node hnode
      · exact ihr hrights node hnode

end Built

namespace MadeOf

variable {items run : List Item} {tree : Expr}

theorem built (h : MadeOf items run tree) : Built (bare run) tree := by
  obtain ⟨-, phrase, depth, hderives⟩ := h
  exact hderives.built

theorem sublist (h : MadeOf items run tree) : (bare run).Sublist items :=
  List.filter_sublist.trans h.1.sublist

/-- The span of a tree is bounded by two of the items. -/
theorem exists_bounds (h : MadeOf items run tree) : ∃ first ∈ items, ∃ last ∈ items,
    tree.span = first.span.combine last.span := by
  obtain ⟨first, hfirst, last, hlast, hspan⟩ := h.built.exists_bounds
  exact ⟨first, h.sublist.subset hfirst, last, h.sublist.subset hlast, hspan⟩

theorem positive (h : MadeOf items run tree) (hordered : Ordered items) :
    tree.span.lo < tree.span.hi :=
  h.built.positive (hordered.sublist h.sublist)

theorem fits (h : MadeOf items run tree) (hordered : Ordered items) :
    ∀ node ∈ tree.walk, Fits node :=
  h.built.fits (hordered.sublist h.sublist)

end MadeOf

/-! ## Walks -/

/-- The nodes of a tree lie within its span, and a walk meets them in the order in which they
    begin. -/
structure Nested (tree : Expr) : Prop where
  encloses : ∀ node ∈ tree.walk, Encloses tree node
  sorted : tree.walk.Pairwise StartsBy

/-- A node that fits is nested if its children are. -/
theorem Nested.of_children {node : Expr} (hfits : ∀ other ∈ node.walk, Fits other)
    (h : ∀ child ∈ node.children, Nested child) : Nested node := by
  have hself : node ∈ node.walk := by
    rw [Expr.walk_eq]
    exact List.mem_cons_self
  have hnode := hfits node hself
  have hbelow : ∀ other ∈ node.children.flatMap Expr.walk, Encloses node other := by
    intro other hother
    obtain ⟨child, hchild, hother⟩ := List.mem_flatMap.1 hother
    exact (hnode.contains child hchild).trans ((h child hchild).encloses other hother)
  -- a node in the walk of one child ends before the walk of the next child begins
  have hsorted : (node.children.flatMap Expr.walk).Pairwise StartsBy := by
    refine List.pairwise_flatMap.2 ⟨fun child hchild => (h child hchild).sorted, ?_⟩
    refine hnode.apart.imp_of_mem fun {a b} ha hb hab x hx y hy => ?_
    have hfit : Fits x := hfits x (by
      rw [Expr.walk_eq]
      exact List.mem_cons_of_mem _ (List.mem_flatMap.2 ⟨a, ha, hx⟩))
    exact .of_apart hab ((h a ha).encloses x hx) hfit.positive ((h b hb).encloses y hy)
  refine ⟨fun other hother => ?_, ?_⟩
  · rw [Expr.walk_eq] at hother
    rcases List.mem_cons.1 hother with rfl | hother
    · exact .refl other
    · exact hbelow other hother
  · rw [Expr.walk_eq]
    exact .cons (fun other hother => (hbelow other hother).lo) hsorted

/-- A tree whose nodes fit is nested. -/
theorem nested_of_fits {tree : Expr} (h : ∀ node ∈ tree.walk, Fits node) : Nested tree := by
  induction tree with
  | print span operand ih =>
      have hoperand := ih fun node hnode => h node (List.mem_cons_of_mem _ hnode)
      exact .of_children h (List.forall_mem_singleton.2 hoperand)
  | assign span name value ih =>
      have hvalue := ih fun node hnode => h node (List.mem_cons_of_mem _ hnode)
      exact .of_children h (List.forall_mem_singleton.2 hvalue)
  | binary span operator left right ihl ihr =>
      have hleft := ihl fun node hnode =>
        h node (List.mem_cons_of_mem _ (List.mem_append_left _ hnode))
      have hright := ihr fun node hnode =>
        h node (List.mem_cons_of_mem _ (List.mem_append_right _ hnode))
      exact .of_children h (List.forall_mem_cons.2 ⟨hleft, List.forall_mem_singleton.2 hright⟩)
  | var | literal => exact .of_children h (by simp [Expr.children])

/-! ## Statements -/

namespace Statements

variable {depth : Nat} {items : List Item} {trees : List Expr}

/-- Every statement is derived from a run of the items. -/
theorem madeOf (h : Statements depth items trees) :
    ∀ tree ∈ trees, ∃ run, MadeOf items run tree := by
  induction h with
  | nil => simp
  | @cons run rest semicolon tree trees htree _ _ ih =>
      refine List.forall_mem_cons.2 ⟨⟨run, (List.prefix_append ..).isInfix, _, _, htree⟩, ?_⟩
      intro other hother
      obtain ⟨run', hrun', hmade⟩ := ih other hother
      exact ⟨run', hrun'.trans ⟨run ++ [semicolon], [], by simp⟩, hmade⟩

/-- Every statement ends before the next one begins: there is a semicolon between them. -/
theorem apart (h : Statements depth items trees) (hordered : Ordered items) :
    trees.Pairwise fun a b => a.span.hi < b.span.lo := by
  induction h with
  | nil => exact .nil
  | @cons run rest semicolon tree trees htree _ hrest ih =>
      have hbehind := hordered.sublist (List.sublist_append_right run (semicolon :: rest))
      have hrest' := hbehind.sublist (List.sublist_cons_self semicolon rest)
      refine .cons (fun other hother => ?_) (ih hrest')
      have hmade : MadeOf run run tree := ⟨List.infix_rfl, _, _, htree⟩
      obtain ⟨run', hmade'⟩ := hrest.madeOf other hother
      obtain ⟨first, -, last, hlast, hspan⟩ := hmade.exists_bounds
      obtain ⟨first', hfirst', last', -, hspan'⟩ := hmade'.exists_bounds
      have hle := (List.pairwise_append.1 hordered.apart).2.2 last hlast semicolon
        List.mem_cons_self
      rw [hspan, hspan']
      exact Int.lt_of_le_of_lt hle (hbehind.lo_lt first' hfirst')

end Statements

end Grammar

end ScriptFront
