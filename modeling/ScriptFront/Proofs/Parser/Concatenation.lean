import ScriptFront.Proofs.Lexer.Concatenation
import ScriptFront.Proofs.Parser.Source

set_option autoImplicit false

/-! # Programs that are put together

A program and another one behind a newline are read one after the other
(`parseSource_append_line`). The tokens of both sources are those of the whole; after the statements
of the first one the plain machine stands before the tokens of the second one as at the start, and
where these stand in the source makes no difference but to the spans. A lexical error in the second
source takes the place of the same answers whatever statements were read before. -/

namespace ScriptFront

open Grammar Run Parse Utf8

/-! ## Answers that a lexical error overtakes -/

/-- The answer that the items lead to, when an error stands behind them: it takes the place of a
    success and of a complaint about the end, and an item that is blamed is blamed before it is
    met. -/
def overtaken {α : Type} : Option LexError → Except SourceError α → Except SourceError α
  | none, answer => answer
  | some lexical, .ok _ => .error (.lexical lexical)
  | some lexical, .error (.lexical _) => .error (.lexical lexical)
  | some lexical, .error (.syntactic error) =>
    if error.token = none then .error (.lexical lexical) else .error (.syntactic error)

theorem overtaken_map {α β : Type} (ending : Option LexError) (f : α → β)
    (answer : Except SourceError α) :
    overtaken ending (answer.map f) = (overtaken ending answer).map f := by
  rcases ending with _ | lexical
  · rfl
  · rcases answer with (_ | error) | value
    · rfl
    · show (if _ then _ else _) = Except.map f (if _ then _ else _)
      split <;> rfl
    · rfl

theorem overtaken_relabelled {α : Type} (r : Relabelling) (ending : Option LexError)
    (answer : Except SourceError α) :
    overtaken (ending.map r.lexError) (answer.mapError r.error) =
      (overtaken ending answer).mapError r.error := by
  rcases ending with _ | lexical
  · rfl
  · rcases answer with (_ | ⟨token, span, complaint⟩) | value
    · rfl
    · cases token <;> rfl
    · rfl

/-- A run over a lexer that keeps in step answers what the run over the items does, unless an error
    overtakes it. -/
theorem Follows.answer_eq {α : Type} {ending : Option LexError} {out : α → Unbuffered → Prop}
    {res : EStateM.Result SourceError (Parser Lexer) α}
    {res' : EStateM.Result SourceError Unbuffered α}
    (h : Follows ending id (fun _ _ _ => ending = none) out res res') :
    Parse.answer res = overtaken ending (Parse.answer res') := by
  obtain ⟨hsame, hcut⟩ := h.answers
  cases ending with
  | none => exact hsame rfl
  | some lexical =>
      rcases hcut lexical rfl with ⟨error, htoken, hplain, hparser⟩ | ⟨hplain, hparser⟩
      · rw [hparser, hplain]
        exact (if_neg htoken).symm
      · rw [hparser]
        rcases hplain with ⟨value, hplain⟩ | hplain <;> rw [hplain] <;> rfl

/-! ## The plain machine elsewhere in a source -/

namespace Unbuffered

/-- The plain machine over relabelled items is alike to the one over the items. -/
def relabelled (r : Relabelling) : Simulation r Unbuffered Unbuffered where
  related s t := t = ⟨s.items.map r.item, s.depth, s.maxDepth⟩
  steps := {
    look := by
      rintro _ ahead ⟨items, depth, maxDepth⟩ _ rfl
      exact ⟨List.getElem?_map, rfl⟩
    take := by
      rintro _ ⟨_ | ⟨item, items⟩, depth, maxDepth⟩ _ rfl <;> exact ⟨rfl, rfl⟩
    prefetch := by
      rintro _ count s _ rfl
      exact ⟨rfl, rfl⟩
    enter := by rintro _ s _ rfl; rfl
    leave := by rintro _ _ s _ _ - rfl; rfl }
  room := by rintro s _ rfl; rfl
  bound := by rintro s _ rfl; simp [TokenMachine.bound]

variable {fuel room : Nat} {items items' : List Item} {trees : List Expr}

/-- Behind some statements the answer is made of these and of what the items lead to that follow
    them, relabelled as they are. -/
theorem answer_append_relabelled (r : Relabelling) (h : Statements room items trees)
    (hfuel : items.length ≤ fuel) (count depth : Nat) (maxDepth : Int) :
    Parse.answer (statementsWith fuel room (trees.length + count)
        (⟨items ++ items'.map r.item, depth, maxDepth⟩ : Unbuffered)) =
      ((Parse.answer (statementsWith fuel room count
        (⟨items', depth, maxDepth⟩ : Unbuffered))).map
          (fun others => trees ++ others.map r.expr)).mapError r.error := by
  have hrelabelled := ((relabelled r).steps.statementsWith fuel room count
    ⟨items', depth, maxDepth⟩ _ rfl).answer_eq
  rw [statementsWith_append h hfuel, answer_map, hrelabelled]
  cases Parse.answer (statementsWith fuel room count
    (⟨items', depth, maxDepth⟩ : Unbuffered)) <;> rfl

end Unbuffered

/-! ## Whole sources -/

variable (limits : Limits) (maxDepth : Option Int)

/-- The program of a source is answered as the statements of its tokens are, read with any fuel that
    is enough, unless the error behind the tokens overtakes the answer. -/
theorem answer_program_start {source : Text} {tokens : List Item}
    {ending : Option LexError} (hscans : Scans (Cursor.start source) tokens ending)
    {fuel count : Nat} (hfuel : tokens.length < fuel) (hcount : tokens.length < count) :
    Parse.answer (program (Parser.build limits maxDepth (Lexer.start source))) =
      overtaken ending ((Parse.answer (statementsWith fuel (maxDepth.getD limits.maxDepth).toNat
        count (⟨tokens, 0, maxDepth.getD limits.maxDepth⟩ : Unbuffered))).map Program.mk) := by
  have habreast : Abreast ending (Parser.build limits maxDepth (Lexer.start source))
      ⟨tokens, 0, maxDepth.getD limits.maxDepth⟩ :=
    ⟨_, .scanning rfl hscans, rfl⟩
  have hroom : TokenMachine.room (⟨tokens, 0, maxDepth.getD limits.maxDepth⟩ : Unbuffered) =
      (maxDepth.getD limits.maxDepth).toNat := by
    simp [TokenMachine.room]
  have hfollows := program_follows_statements habreast hfuel hcount
  rw [hroom] at hfollows
  rw [hfollows.answer_eq, bind_pure_comp, answer_map]

/-- The answer to a program and another source behind a newline is made of the statements of the
    program and of the answer to the other source. -/
theorem answer_append_line {first : Text} {tokens : List Item} {trees : List Expr}
    (hscans : Scans (Cursor.start first) tokens none)
    (htrees : Statements (maxDepth.getD limits.maxDepth).toNat tokens trees) (second : Text) :
    Parse.answer (program (Parser.build limits maxDepth
        (Lexer.start (first ++ '\n' :: second)))) =
      ((Parse.answer (program (Parser.build limits maxDepth (Lexer.start second)))).map
        fun others => ⟨trees ++ others.statements.map (Relabelling.shift (size first + 1)).expr⟩
        ).mapError (Relabelling.shift (size first + 1)).error := by
  obtain ⟨others, ending, hsecond⟩ : ∃ others ending,
      Scans (Cursor.start second) others ending := ⟨_, _, Lexer.drain_scans (.start second) rfl⟩
  have hlength := htrees.length_le
  -- the fuel of the whole is enough for both
  obtain ⟨fuel, hfuel⟩ : ∃ fuel, tokens.length + others.length < fuel := ⟨_, Nat.lt_succ_self _⟩
  have hwhole := @answer_program_start limits maxDepth _ _ _ (hscans.append_line hsecond) fuel
    (trees.length + fuel) (by simpa using hfuel) (by simp; omega)
  have hother := @answer_program_start limits maxDepth _ _ _ hsecond fuel fuel (by omega) (by omega)
  rw [hwhole, hother, Unbuffered.answer_append_relabelled _ htrees (by omega),
    ← overtaken_map, ← overtaken_relabelled]
  cases Parse.answer (statementsWith fuel (maxDepth.getD limits.maxDepth).toNat fuel
    (⟨others, 0, maxDepth.getD limits.maxDepth⟩ : Unbuffered)) <;> rfl

/-- **Programs can be put together.** Behind a source that is a program, a newline and another
    source give a program exactly if this one is one, and then its statements follow those of the
    first, with every span as many bytes further to the right as stand before it. Otherwise its
    error is reported, with the span as far to the right. -/
theorem parseSource_append_line (hlimits : limits.maxBytes = none) {first : Text}
    {program : Program} (h : parseSource limits none maxDepth first = .ok program)
    (second : Text) :
    (∀ other, parseSource limits none maxDepth second = .ok other →
      parseSource limits none maxDepth (first ++ '\n' :: second) =
        .ok ⟨program.statements ++
          other.statements.map (Relabelling.shift (size first + 1)).expr⟩) ∧
    ∀ failure, parseSource limits none maxDepth second = .error failure →
      ∃ error, failure = .source error ∧
        parseSource limits none maxDepth (first ++ '\n' :: second) =
          .error (.source ((Relabelling.shift (size first + 1)).error error)) := by
  obtain ⟨tokens, hscans, htrees⟩ := statements_of_parseSource_eq_ok h
  have hanswer := answer_append_line limits maxDepth hscans htrees second
  have hbuild (source : Text) : Lexer.build limits none source = .ok (Lexer.start source) := by
    simp [Lexer.build, hlimits]
  rw [parseSource_of_build maxDepth (hbuild _), parseSource_of_build maxDepth (hbuild _), hanswer]
  cases Parse.answer (Parse.program (Parser.build limits maxDepth (Lexer.start second))) with
  | ok found =>
      constructor
      · intro other hother
        obtain rfl := Except.ok.inj hother
        rfl
      · intro failure hfailure
        cases hfailure
  | error error =>
      constructor
      · intro other hother
        cases hother
      · intro failure hfailure
        exact ⟨error, (Except.error.inj hfailure).symm, rfl⟩

/-- Behind a statement and a comment, another statement and an error in the middle of one. -/
theorem parseSource_append_line_comment :
    parseSource {} none none "x; //é\nprint y;".toList =
      .ok ⟨[.var ⟨0, 1⟩ (.text ['x']),
        .print ⟨8, 15⟩ (.var ⟨14, 15⟩ (.text ['y']))]⟩ ∧
    parseSource {} none none "x; //é\ny = #;".toList =
      .error (.source (.lexical ⟨.unexpectedCharacter, ['#'], some ⟨12, 13⟩⟩)) := by
  have hfirst : parseSource {} none none "x; //é".toList =
      .ok ⟨[.var ⟨0, 1⟩ (.text ['x'])]⟩ := by decide +kernel
  have hprint : parseSource {} none none "print y;".toList =
      .ok ⟨[.print ⟨0, 7⟩ (.var ⟨6, 7⟩ (.text ['y']))]⟩ := by decide +kernel
  have hhash : parseSource {} none none "y = #;".toList =
      .error (.source (.lexical ⟨.unexpectedCharacter, ['#'], some ⟨4, 5⟩⟩)) := by decide +kernel
  obtain ⟨error, herror, hsource⟩ :=
    (parseSource_append_line {} none rfl hfirst "y = #;".toList).2 _ hhash
  obtain rfl := Failure.source.inj herror
  exact ⟨(parseSource_append_line {} none rfl hfirst "print y;".toList).1 _ hprint, hsource⟩

end ScriptFront
