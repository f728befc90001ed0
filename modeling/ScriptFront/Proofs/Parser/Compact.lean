import ScriptFront.Proofs.Lexer.Layout
import ScriptFront.Proofs.Parser.Printing
import ScriptFront.Proofs.Parser.Source

set_option autoImplicit false

/-! # What the compact text of a program tells

The compact text of a tree has a heading, which says what the topmost node is, and the parts of the
node in parentheses behind it. The heading ends at the first parenthesis, and a name or a numeral at
the first comma or parenthesis, since the lexer lets neither into a name. So the text can be read in
one way only, whatever stands behind it (`Expr.dump_append_inj`), and programs with the same compact
text differ at most in their spans. -/

namespace ScriptFront

open Grammar

/-! ## Names and numbers -/

namespace Payload

/-- A name as the lexer reads it. -/
def IsName (payload : Payload) : Prop := ∃ name, payload = .text name ∧ ∀ c ∈ name, isNamePart c

/-- A number as the lexer reads it. -/
def IsNumber (payload : Payload) : Prop := ∃ n : Nat, payload = .integer n

variable {payload payload' : Payload}

theorem IsName.isNamePart (h : payload.IsName) : ∀ c ∈ payload.plain, isNamePart c := by
  obtain ⟨name, rfl, hname⟩ := h
  exact hname

theorem IsNumber.isNamePart (h : payload.IsNumber) : ∀ c ∈ payload.plain, isNamePart c := by
  obtain ⟨n, rfl⟩ := h
  intro c hc
  exact isNamePart_of_isDigit (Numeral.isDigit_of_mem_ofNat hc)

theorem IsName.eq_of_plain (h : payload.IsName) (h' : payload'.IsName)
    (hplain : payload.plain = payload'.plain) : payload = payload' := by
  obtain ⟨name, rfl, -⟩ := h
  obtain ⟨name', rfl, -⟩ := h'
  exact congrArg text hplain

/-- A number is written in one way only. -/
theorem IsNumber.eq_of_plain (h : payload.IsNumber) (h' : payload'.IsNumber)
    (hplain : payload.plain = payload'.plain) : payload = payload' := by
  obtain ⟨n, rfl⟩ := h
  obtain ⟨n', rfl⟩ := h'
  have hvalue := congrArg Numeral.value hplain
  have hn : n = n' := by simpa [plain, Numeral.ofInt] using hvalue
  rw [hn]

end Payload

/-! ## Where the parts of a text end -/

/-- A part that does not contain the character behind it ends at this character. -/
theorem append_cons_inj {α : Type} {c : α} {a a' b b' : List α} (ha : c ∉ a) (ha' : c ∉ a')
    (h : a ++ c :: b = a' ++ c :: b') : a = a' ∧ b = b' := by
  rcases List.append_eq_append_iff.1 h with ⟨more, rfl, hmore⟩ | ⟨more, rfl, hmore⟩
  · cases more with
    | nil => exact ⟨(List.append_nil a).symm, (List.cons.inj hmore).2⟩
    | cons d more =>
        obtain ⟨rfl, -⟩ := List.cons.inj hmore
        simp at ha'
  · cases more with
    | nil => exact ⟨List.append_nil a', (List.cons.inj hmore).2.symm⟩
    | cons d more =>
        obtain ⟨rfl, -⟩ := List.cons.inj hmore
        simp at ha

/-- Names and numbers end where no name goes on. -/
theorem plain_append_inj {c : Char} (hc : ¬ isNamePart c) {payload payload' : Payload}
    {rest rest' : Text} (hpart : ∀ d ∈ payload.plain, isNamePart d)
    (hpart' : ∀ d ∈ payload'.plain, isNamePart d)
    (h : payload.plain ++ c :: rest = payload'.plain ++ c :: rest') :
    payload.plain = payload'.plain ∧ rest = rest' :=
  append_cons_inj (fun hmem => hc (hpart c hmem)) (fun hmem => hc (hpart' c hmem)) h

/-! ## Headings -/

namespace ExprKind

/-- What stands before the first parenthesis of a compact text. -/
def heading : ExprKind → Text
  | literal => "Literal".toList
  | kind => kind.name

theorem not_mem_heading (kind : ExprKind) : '(' ∉ kind.heading := by
  have hall : ∀ kind ∈ all, '(' ∉ kind.heading := by decide
  exact hall kind kind.mem_all

theorem heading_inj {kind kind' : ExprKind} (h : kind.heading = kind'.heading) : kind = kind' := by
  have hall : ∀ kind ∈ all, ∀ kind' ∈ all, kind.heading = kind'.heading → kind = kind' := by
    decide
  exact hall kind kind.mem_all kind' kind'.mem_all h

end ExprKind

namespace Expr

/-- What stands in the outer parentheses of a compact text. -/
def body : Expr → Text
  | print _ operand => operand.dump
  | assign _ name value => name.plain ++ [',', ' '] ++ value.dump
  | binary _ _ left right => left.dump ++ [',', ' '] ++ right.dump
  | var _ name => name.plain
  | literal _ value => value.plain

theorem dump_eq (e : Expr) : e.dump = e.kind.heading ++ '(' :: (e.body ++ [')']) := by
  cases e with
  | binary span operator left right => cases operator <;> rfl
  | _ => rfl

/-- The heading tells the kind of the node and where its parts begin. -/
theorem body_of_dump {e e' : Expr} {rest rest' : Text} (h : e.dump ++ rest = e'.dump ++ rest') :
    e.kind = e'.kind ∧ e.body ++ ')' :: rest = e'.body ++ ')' :: rest' := by
  simp only [dump_eq, List.append_assoc, List.cons_append, List.nil_append] at h
  obtain ⟨hheading, hbody⟩ :=
    append_cons_inj e.kind.not_mem_heading e'.kind.not_mem_heading h
  exact ⟨ExprKind.heading_inj hheading, hbody⟩

/-! ## Reading a compact text -/

/-- All names and numbers in the tree are such as the lexer reads. -/
def Readable : Expr → Prop
  | print _ operand => operand.Readable
  | assign _ name value => name.IsName ∧ value.Readable
  | binary _ _ left right => left.Readable ∧ right.Readable
  | var _ name => name.IsName
  | literal _ value => value.IsNumber

/-- A compact text ends where its tree ends, and tells all but the spans of the tree. -/
theorem dump_append_inj {e e' : Expr} {rest rest' : Text} (he : e.Readable) (he' : e'.Readable)
    (h : e.dump ++ rest = e'.dump ++ rest') : e.unplaced = e'.unplaced ∧ rest = rest' := by
  induction e generalizing e' rest rest' with
  | print span operand ih =>
      obtain ⟨hkind, hbody⟩ := body_of_dump h
      cases e' with
      | print span' operand' =>
          have he' : operand'.Readable := he'
          obtain ⟨hoperand, hrest⟩ := ih he he' hbody
          exact ⟨congrArg (print .nowhere) hoperand, (List.cons.inj hrest).2⟩
      | _ => exact absurd hkind (by simp [kind])
  | assign span name value ih =>
      obtain ⟨hkind, hbody⟩ := body_of_dump h
      cases e' with
      | assign span' name' value' =>
          simp only [body, List.append_assoc, List.cons_append, List.nil_append] at hbody
          obtain ⟨hplain, hvalue⟩ := plain_append_inj (by decide) he.1.isNamePart
            he'.1.isNamePart hbody
          obtain ⟨hvalue, hrest⟩ := ih he.2 he'.2 (List.cons.inj hvalue).2
          simp only [unplaced, hvalue, he.1.eq_of_plain he'.1 hplain]
          exact ⟨trivial, (List.cons.inj hrest).2⟩
      | _ => exact absurd hkind (by simp [kind])
  | binary span operator left right ihl ihr =>
      obtain ⟨hkind, hbody⟩ := body_of_dump h
      cases e' with
      | binary span' operator' left' right' =>
          simp only [body, List.append_assoc, List.cons_append, List.nil_append] at hbody
          obtain ⟨hleft, hright⟩ := ihl he.1 he'.1 hbody
          obtain ⟨hright, hrest⟩ := ihr he.2 he'.2 (List.cons.inj (List.cons.inj hright).2).2
          simp only [unplaced, hleft, hright, ExprKind.binary.inj hkind]
          exact ⟨trivial, (List.cons.inj hrest).2⟩
      | _ => exact absurd hkind (by simp [kind])
  | var span name =>
      obtain ⟨hkind, hbody⟩ := body_of_dump h
      cases e' with
      | var span' name' =>
          obtain ⟨hplain, hrest⟩ := plain_append_inj (by decide) he.isNamePart he'.isNamePart hbody
          exact ⟨congrArg (var .nowhere) (he.eq_of_plain he' hplain), hrest⟩
      | _ => exact absurd hkind (by simp [kind])
  | literal span value =>
      obtain ⟨hkind, hbody⟩ := body_of_dump h
      cases e' with
      | literal span' value' =>
          obtain ⟨hplain, hrest⟩ := plain_append_inj (by decide) he.isNamePart he'.isNamePart hbody
          exact ⟨congrArg (literal .nowhere) (he.eq_of_plain he' hplain), hrest⟩
      | _ => exact absurd hkind (by simp [kind])

@[simp] theorem dump_unplaced (e : Expr) : e.unplaced.dump = e.dump := by
  induction e with
  | print _ _ ih | assign _ _ _ ih =>
      rw [dump_eq, dump_eq]
      simp only [unplaced, kind, body, ih]
  | binary _ _ _ _ ihl ihr =>
      rw [dump_eq, dump_eq]
      simp only [unplaced, kind, body, ihl, ihr]
  | var | literal => rfl

theorem dump_eq_iff {e e' : Expr} (he : e.Readable) (he' : e'.Readable) :
    e.dump = e'.dump ↔ e.unplaced = e'.unplaced := by
  constructor
  · intro h
    exact (@dump_append_inj e e' [] [] he he' (by simp [h])).1
  · intro h
    rw [← dump_unplaced e, h, dump_unplaced]

end Expr

/-! ## Trees that are read from a source -/

/-- The token carries what the lexer gives to one of its kind. -/
structure Token.Readable (token : Token) : Prop where
  name : token.kind = .identifier → token.payload.IsName
  number : token.kind = .integer → token.payload.IsNumber

theorem Spells.readable {text : Text} {token : Token} (h : Spells text token) :
    token.Readable := by
  cases h with
  | word hmem =>
      have hword := word_kind _ hmem
      exact ⟨fun hkind => absurd hkind hword.2.1, fun hkind => absurd hkind hword.1⟩
  | integer => exact ⟨by simp, fun _ => ⟨_, rfl⟩⟩
  | identifier hname =>
      refine ⟨fun _ => ⟨_, rfl, ?_⟩, by simp⟩
      obtain ⟨first, others, rfl, hfirst, hothers⟩ := hname
      exact List.forall_mem_cons.2 ⟨isNamePart_of_isNameStart hfirst, hothers⟩
  | string => exact ⟨by simp, by simp⟩

namespace Grammar

variable {depth : Nat} {items : List Item}

theorem Derives.readable {phrase : Phrase} {tree : Expr} (h : Derives phrase depth items tree)
    (hitems : ∀ item ∈ items, item.token.Readable) : tree.Readable := by
  induction h with
  | print _ _ ih => exact ih fun item hitem => hitems item (List.mem_cons_of_mem _ hitem)
  | @target _ name _ _ _ hname _ _ ih =>
      refine ⟨(hitems name List.mem_cons_self).name hname, ih fun item hitem => ?_⟩
      exact hitems item (List.mem_cons_of_mem _ (List.mem_cons_of_mem _ hitem))
  | ofTerm _ ih | ofFact _ ih | ofAtom _ ih => exact ih hitems
  | sum _ _ _ ihl ihr | product _ _ _ ihl ihr =>
      refine ⟨ihl fun item hitem => ?_, ihr fun item hitem => ?_⟩
      · exact hitems item (List.mem_append_left _ hitem)
      · exact hitems item (List.mem_append_right _ (List.mem_cons_of_mem _ hitem))
  | @name _ item hkind => exact (hitems item List.mem_cons_self).name hkind
  | @integer _ item hkind => exact (hitems item List.mem_cons_self).number hkind
  | parens _ _ _ ih =>
      refine ih fun item hitem => hitems item ?_
      exact List.mem_cons_of_mem _ (List.mem_append_left _ hitem)

theorem Statements.readable {trees : List Expr} (h : Statements depth items trees)
    (hitems : ∀ item ∈ items, item.token.Readable) : ∀ tree ∈ trees, tree.Readable := by
  induction h with
  | nil => simp
  | cons htree _ _ ih =>
      refine List.forall_mem_cons.2 ⟨htree.readable fun item hitem => ?_, ih fun item hitem => ?_⟩
      · exact hitems item (List.mem_append_left _ hitem)
      · exact hitems item (List.mem_append_right _ (List.mem_cons_of_mem _ hitem))

end Grammar

/-- Whatever is read from a source is readable. -/
theorem readable_of_parseSource_eq_ok {limits : Limits} {maxBytes maxDepth : Option Int}
    {source : Text} {program : Program}
    (h : parseSource limits maxBytes maxDepth source = .ok program) :
    ∀ statement ∈ program.statements, statement.Readable := by
  obtain ⟨tokens, hscans, hstatements⟩ := statements_of_parseSource_eq_ok h
  refine hstatements.readable fun item hitem => ?_
  obtain ⟨before, lexeme, after, -, -, hspells⟩ := hscans.spelled item hitem
  exact hspells.readable

/-! ## Programs -/

/-- A program without its spans. -/
def Program.unplaced (program : Program) : Program := ⟨program.statements.map Expr.unplaced⟩

theorem map_dump_eq_iff {trees trees' : List Expr} (h : ∀ tree ∈ trees, tree.Readable)
    (h' : ∀ tree ∈ trees', tree.Readable) :
    trees.map Expr.dump = trees'.map Expr.dump ↔
      trees.map Expr.unplaced = trees'.map Expr.unplaced := by
  induction trees generalizing trees' with
  | nil => cases trees' <;> simp
  | cons tree trees ih =>
      cases trees' with
      | nil => simp
      | cons tree' trees' =>
          obtain ⟨htree, htrees⟩ := List.forall_mem_cons.1 h
          obtain ⟨htree', htrees'⟩ := List.forall_mem_cons.1 h'
          simp only [List.map_cons, List.cons.injEq, Expr.dump_eq_iff htree htree',
            ih htrees htrees']

/-- **The compact text of a program identifies it.** Programs that are read from sources have the
    same compact text if and only if they are the same up to their spans. -/
theorem dump_eq_iff_of_parseSource {limits limits' : Limits}
    {maxBytes maxBytes' maxDepth maxDepth' : Option Int} {source source' : Text}
    {program program' : Program}
    (h : parseSource limits maxBytes maxDepth source = .ok program)
    (h' : parseSource limits' maxBytes' maxDepth' source' = .ok program') :
    program.dump = program'.dump ↔ program.unplaced = program'.unplaced := by
  rw [Program.dump, Program.dump, map_dump_eq_iff (readable_of_parseSource_eq_ok h)
    (readable_of_parseSource_eq_ok h')]
  simp only [Program.unplaced, Program.mk.injEq]

/-- Blanks, comments, superfluous parentheses and leading zeros do not show. -/
theorem dump_eq_iff_product : ∃ program program' : Program, program ≠ program' ∧
    parseSource {} none none "x=(y)*010;".toList = .ok program ∧
    parseSource {} none (some 2) "x = y*10; // z".toList = .ok program' ∧
    program.dump = ["Assign(x, Mul(Var(y), Literal(10)))".toList] ∧
    (program.dump = program'.dump ↔ program.unplaced = program'.unplaced) := by
  have hrun : parseSource {} none none "x=(y)*010;".toList =
      .ok ⟨[.assign ⟨0, 9⟩ (.text ['x']) (.binary ⟨3, 9⟩ .mul
        (.var ⟨3, 4⟩ (.text ['y'])) (.literal ⟨6, 9⟩ (.integer 10)))]⟩ := by
    decide +kernel
  have hrun' : parseSource {} none (some 2) "x = y*10; // z".toList =
      .ok ⟨[.assign ⟨0, 8⟩ (.text ['x']) (.binary ⟨4, 8⟩ .mul
        (.var ⟨4, 5⟩ (.text ['y'])) (.literal ⟨6, 8⟩ (.integer 10)))]⟩ := by
    decide +kernel
  exact ⟨_, _, by decide, hrun, hrun', rfl, dump_eq_iff_of_parseSource hrun hrun'⟩

/-- With other names than the lexer reads, two trees can have the same compact text. -/
example : (Expr.assign .nowhere (.text "a".toList) (.var .nowhere (.text "b, Var(c".toList))).dump =
    (Expr.assign .nowhere (.text "a, Var(b".toList) (.var .nowhere (.text "c".toList))).dump := by
  rfl

end ScriptFront
