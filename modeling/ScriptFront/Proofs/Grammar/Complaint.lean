import ScriptFront.Failure
import ScriptFront.Proofs.Grammar.Frontier

set_option autoImplicit false

/-! # What a complaint says about the input

`Blames` says which place of a malformed input each complaint has to name: the end of the input if
more had to come, the first item that cannot go on the program, the beginning of what was taken
for the target of an `=`, or the item at which one `assign` too many would begin. -/

namespace ScriptFront.Grammar

/-- The error names an item and its place. -/
def Names (error : SyntaxError) (item : Item) : Prop :=
  error.token = some item.token ∧ error.span = some item.span

/-- What stands before a place begins a program, and with the item at that place it does not. -/
def FirstUnviable (items : List Item) (place : Nat) : Prop :=
  Viable (items.take place) ∧ ¬ Viable (items.take (place + 1))

/-- From one place to another the items are a whole `term`, with which an `assign` begins: of all
    `assign` phrases that are open behind it, that one is the innermost. -/
def OpenTerm (items : List Item) (first last : Nat) : Prop :=
  ∃ outer after depth tree, Context .term (first :: outer) (items.take first) after ∧
    Derives .term depth ((items.take last).drop first) tree

/-- At a place an `assign` has to begin, inside that many others. -/
def AssignDue (items : List Item) (place open' : Nat) : Prop :=
  ∃ starts after, Context .assign starts (items.take place) after ∧ starts.length = open'

/-- What each complaint says of the input, if no more than `limit` phrases `assign` may be open. -/
def Blames (items : List Item) (limit : Nat) (error : SyntaxError) : Prop :=
  match error.complaint with
  | .unexpectedEnd =>
    error.token = none ∧ error.span = none ∧ Viable items ∧ ¬ Sentence items
  | .unexpectedToken | .expectedSemicolon | .expectedParen =>
    ∃ place item, items[place]? = some item ∧ Names error item ∧ FirstUnviable items place
  | .badTarget =>
    ∃ first last start equals, first < last ∧ items[first]? = some start ∧ Names error start ∧
      items[last]? = some equals ∧ equals.kind = .equals ∧ FirstUnviable items last ∧
      OpenTerm items first last ∧ ∀ other, OpenTerm items other last → other = first
  | .tooDeep =>
    ∃ place item, items[place]? = some item ∧ Names error item ∧ Viable (items.take place) ∧
      AssignDue items place limit ∧ ∀ others, AssignDue items place others → others = limit
  | .other _ => False

namespace Blames

variable {items : List Item} {limit : Nat} {error : SyntaxError}

/-- A span that is blamed is that of an item. -/
theorem span (h : Blames items limit error) :
    error.span = none ∨ ∃ item ∈ items, error.span = some item.span := by
  have hnamed {place : Nat} {item : Item} (hitem : items[place]? = some item)
      (hnames : Names error item) : ∃ item ∈ items, error.span = some item.span :=
    ⟨item, List.mem_of_getElem? hitem, hnames.2⟩
  unfold Blames at h
  split at h
  case h_1 => exact .inl h.2.1
  case h_5 =>
    obtain ⟨_, _, _, _, -, hitem, hnames, -⟩ := h
    exact .inr (hnamed hitem hnames)
  case h_7 => exact h.elim
  all_goals
    obtain ⟨_, _, hitem, hnames, -⟩ := h
    exact .inr (hnamed hitem hnames)

/-- The complaints that blame anything are on one line. -/
theorem not_mem_text (h : Blames items limit error) : '\n' ∉ error.complaint.text := by
  unfold Blames at h
  split at h
  case h_7 => exact h.elim
  all_goals
    next hcomplaint =>
      rw [hcomplaint]
      decide

end Blames

/-! ## The open phrases do not depend on what follows -/

/-- The same beginning leaves the same `assign` phrases open where another is due. -/
theorem Context.starts_unique {starts starts' : List Nat} {before after after' : List Item}
    (h : Context .assign starts before after) (h' : Context .assign starts' before after') :
    starts = starts' := by
  obtain ⟨f, hscan, -, -, hstarts⟩ := h.frontier
  obtain ⟨g, hscan', -, -, hstarts'⟩ := h'.frontier
  rw [hscan, Option.some.injEq] at hscan'
  rw [← hstarts, ← hstarts', hscan']

/-- The frontier behind a term, with the `assign` phrases around it. -/
theorem Context.frontier_term {starts : List Nat} {before after items : List Item} {depth : Nat}
    {tree : Expr} (h : Context .term starts before after)
    (hitems : Derives .term depth items tree) :
    ∃ g, (Frontier.start 0).scan (before ++ items) = some g ∧ g.Closed ∧
      g.level ++ g.outer.flatten = starts ∧
      (g.mode = .target → ∃ name, items = [name] ∧ name.kind = .identifier) := by
  obtain ⟨f, hscan, -, hopen, hstarts⟩ := h.frontier
  obtain ⟨g, hg⟩ := hitems.reads f hopen
  refine ⟨g, ?_, hg.closed, ?_, fun hmode => (hg.target hmode).2⟩
  · rw [Frontier.scan_append, hscan]; exact hg.scan
  · rw [hg.level, hg.outer, hstarts]

namespace OpenTerm

variable {items : List Item} {first last : Nat}

theorem lt (h : OpenTerm items first last) : first < last := by
  obtain ⟨_, _, _, _, -, hterm⟩ := h
  have hlength := List.length_pos_iff.2 hterm.ne_nil
  rw [List.length_drop, List.length_take] at hlength
  omega

/-- The frontier behind an open term tells where its `assign` begins. -/
theorem frontier (h : OpenTerm items first last) : ∃ outer g,
    (Frontier.start 0).scan (items.take last) = some g ∧
      g.level ++ g.outer.flatten = first :: outer := by
  have hlt := h.lt
  obtain ⟨outer, after, depth, tree, hcontext, hterm⟩ := h
  obtain ⟨g, hscan, -, hstarts, -⟩ := hcontext.frontier_term hterm
  refine ⟨outer, g, ?_, hstarts⟩
  -- what stands before the term and the term are what stands before the place
  have hsplit : items.take first ++ (items.take last).drop first = items.take last := by
    have htake : items.take first = (items.take last).take first := by
      rw [List.take_take, Nat.min_eq_left (Nat.le_of_lt hlt)]
    rw [htake, List.take_append_drop]
  rw [← hsplit]
  exact hscan

/-- At most one `assign` begins with a term that ends at a place and is open there. -/
theorem unique {first' : Nat} (h : OpenTerm items first last)
    (h' : OpenTerm items first' last) : first' = first := by
  obtain ⟨outer, g, hscan, hstarts⟩ := h.frontier
  obtain ⟨outer', g', hscan', hstarts'⟩ := h'.frontier
  rw [hscan, Option.some.injEq] at hscan'
  subst hscan'
  rw [hstarts] at hstarts'
  exact (List.cons.inj hstarts').1.symm

end OpenTerm

/-! ## Complaints about a split input -/

section Split

variable {before rest : List Item} {item : Item} {limit : Nat}

/-- The input may go on before an item and not with it. -/
theorem firstUnviable_of_split {f : Frontier} (hviable : Viable before)
    (hscan : (Frontier.start 0).scan before = some f) (hstep : f.step item.kind = none) :
    FirstUnviable (before ++ item :: rest) before.length := by
  refine ⟨by simpa using hviable, ?_⟩
  have htake : (before ++ item :: rest).take (before.length + 1) = before ++ [item] := by
    rw [List.take_append, List.take_of_length_le (by omega)]
    simp
  rw [htake]
  exact not_viable_of_step hscan hstep

/-- An item that cannot go on the program is blamed for not being what had to come. -/
theorem blames_item {complaint : Complaint} (hcomplaint : complaint = .unexpectedToken ∨
      complaint = .expectedSemicolon ∨ complaint = .expectedParen)
    (h : FirstUnviable (before ++ item :: rest) before.length) :
    Blames (before ++ item :: rest) limit (.blaming (some item) complaint) := by
  have hplace : ∃ place named, (before ++ item :: rest)[place]? = some named ∧
      Names (.blaming (some item) complaint) named ∧
      FirstUnviable (before ++ item :: rest) place :=
    ⟨before.length, item, by simp, ⟨rfl, rfl⟩, h⟩
  rcases hcomplaint with rfl | rfl | rfl <;> exact hplace

/-- The end of an input that could go on and has to is blamed as such. -/
theorem blames_end {whole : List Item} {f : Frontier} (hviable : Viable whole)
    (hscan : (Frontier.start 0).scan whole = some f) (hf : f ≠ .start whole.length) :
    Blames whole limit .atEnd :=
  ⟨rfl, rfl, hviable, not_sentence_of_scan hscan hf⟩

/-- An `assign` that begins one level too deep is blamed on its first item. -/
theorem blames_tooDeep {starts : List Nat} {after : List Item}
    (h : Context .assign starts before after) (hlimit : starts.length = limit) :
    Blames (before ++ item :: rest) limit (.blaming (some item) .tooDeep) := by
  refine ⟨before.length, item, by simp, ⟨rfl, rfl⟩, by simpa using h.viable,
    ⟨starts, after, by simpa using h, hlimit⟩, ?_⟩
  rintro others ⟨starts', after', h', rfl⟩
  rw [List.take_left' rfl] at h'
  rw [← hlimit, h.starts_unique h']

/-- An `=` behind a term that is no target is blamed on where the term begins. -/
theorem blames_target {starts : List Nat} {after used : List Item} {start : Item} {depth : Nat}
    {tree : Expr} (h : Context .term (before.length :: starts) before after)
    (hused : Derives .term depth (start :: used) tree) (hitem : item.kind = .equals)
    (hunviable : FirstUnviable (before ++ start :: used ++ item :: rest)
      (before ++ start :: used).length) :
    Blames (before ++ start :: used ++ item :: rest) limit
      (.blaming (some start) .badTarget) := by
  have hopen : OpenTerm (before ++ start :: used ++ item :: rest) before.length
      (before ++ start :: used).length := by
    refine ⟨starts, after, depth, tree, ?_, ?_⟩
    · simpa [List.take_append] using h
    · rw [List.take_left' rfl, List.drop_left' rfl]; exact hused
  refine ⟨before.length, (before ++ start :: used).length, start, item, hopen.lt, by simp,
    ⟨rfl, rfl⟩, ?_, hitem, hunviable, hopen, fun other h' => hopen.unique h'⟩
  rw [List.getElem?_append_right (Nat.le_refl _)]
  simp

end Split

end ScriptFront.Grammar
