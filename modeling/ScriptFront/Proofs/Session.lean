import ScriptFront.Session

set_option autoImplicit false

/-! # Sessions whose objects do not interfere

A lexer and the parsers over it get the same answers in a session in which other things happen as in
a session of their own (`Session.ownAnswers_eq`). What a session of its own is told is `ownSteps`:
the steps that concern this lexer and its parsers, with the limits that were in force at each build
written out, and without the name of the lexer. Two sequences of steps that agree on these therefore
agree on the answers to them. -/

namespace ScriptFront

/-! ## Builds -/

/-- A lexer is refused exactly when its source is longer than the limit. -/
theorem Lexer.build_eq_error_iff {limits : Limits} {maxBytes : Option Int} {source : Text}
    {reason : Refusal} :
    Lexer.build limits maxBytes source = .error reason ↔
      ∃ limit, (maxBytes <|> limits.maxBytes) = some limit ∧ limit < Utf8.size source ∧
        reason = .sourceTooLong (Utf8.size source) limit := by
  unfold Lexer.build
  cases maxBytes <|> limits.maxBytes with
  | none => simp
  | some limit =>
      by_cases hlong : (Utf8.size source : Int) > limit
      · simp [hlong, eq_comm]
      · simp [hlong]

/-- Only the limit that counts matters for a build. -/
theorem Lexer.build_orElse {limits' : Limits} (h : limits'.maxBytes = none) (limits : Limits)
    (maxBytes : Option Int) (source : Text) :
    Lexer.build limits' (maxBytes <|> limits.maxBytes) source =
      Lexer.build limits maxBytes source := by
  unfold Lexer.build
  rw [h]
  cases maxBytes <|> limits.maxBytes <;> rfl

namespace Session

/-! ## The steps of one lexer and its parsers -/

/-- A session in which nothing has been built. -/
def fresh (limits : Limits) : Session := { limits }

/-- What a step does to the lexer at a place and to the parsers over it, if it does anything, as a
    step of a session that has no other lexer. -/
def ownStep? (session : Session) (place : Nat) : SessionStep → Option SessionStep
  | .lexer _ source maxBytes =>
    if session.lexers.length = place ∧ (Lexer.build session.limits maxBytes source).isOk then
      some (.lexer [] source (maxBytes <|> session.limits.maxBytes))
    else none
  | .parser name lexer maxDepth =>
    if session.lexerNames.lookup lexer = some place then
      some (.parser name [] (maxDepth.getD session.limits.maxDepth))
    else none
  | .next lexer =>
    if session.lexerNames.lookup lexer = some place then some (.next []) else none
  | .run name =>
    if (session.parsers.lookup name).map Parser.supply = some place then some (.run name) else none
  | .setMaxBytes _ | .setMaxDepth _ | .parse .. | .tokenize .. => none

/-- For each step of a sequence what it does to the lexer at a place and to the parsers over it. -/
def concerns (session : Session) (place : Nat) : List SessionStep → List (Option SessionStep)
  | [] => []
  | op :: ops => session.ownStep? place op :: (session.step op).2.concerns place ops

/-- The steps of a sequence that concern the lexer at a place and the parsers over it. -/
def ownSteps (session : Session) (place : Nat) (ops : List SessionStep) : List SessionStep :=
  (session.concerns place ops).filterMap id

/-- The answers to the steps of a sequence that concern the lexer at a place and the parsers over
    it. -/
def ownAnswers (session : Session) (place : Nat) (ops : List SessionStep) :
    List (Except Failure SessionAnswer) :=
  ((session.runSteps ops).zip (session.concerns place ops)).filterMap fun (answer, own) =>
    own.map fun _ => answer

section Cons

variable {session : Session} {place : Nat} {op own : SessionStep} {ops : List SessionStep}

theorem ownSteps_cons_none (h : session.ownStep? place op = none) :
    session.ownSteps place (op :: ops) = (session.step op).2.ownSteps place ops := by
  simp [ownSteps, concerns, h]

theorem ownSteps_cons_some (h : session.ownStep? place op = some own) :
    session.ownSteps place (op :: ops) = own :: (session.step op).2.ownSteps place ops := by
  simp [ownSteps, concerns, h]

theorem ownAnswers_cons_none (h : session.ownStep? place op = none) :
    session.ownAnswers place (op :: ops) = (session.step op).2.ownAnswers place ops := by
  simp [ownAnswers, concerns, runSteps, h]

theorem ownAnswers_cons_some (h : session.ownStep? place op = some own) :
    session.ownAnswers place (op :: ops) =
      (session.step op).1 :: (session.step op).2.ownAnswers place ops := by
  simp [ownAnswers, concerns, runSteps, h]

end Cons

/-! ## Places -/

/-- The names and the parsers of a session lead to lexers that there are. -/
structure InPlace (session : Session) : Prop where
  names : ∀ name place, session.lexerNames.lookup name = some place →
    place < session.lexers.length
  supplies : ∀ name parser, session.parsers.lookup name = some parser →
    parser.supply < session.lexers.length

/-- What is found under a name when one entry has been put in front. -/
theorem lookup_cons_eq_some {α : Type} {name name' : Text} {entry found : α}
    {entries : List (Text × α)} :
    ((name', entry) :: entries).lookup name = some found ↔
      (name = name' ∧ entry = found) ∨ (name ≠ name' ∧ entries.lookup name = some found) := by
  rw [List.lookup_cons]
  by_cases h : name = name'
  · simp [h]
  · simp [h, beq_eq_false_iff_ne.2 h]

variable {session : Session} {place : Nat}

namespace InPlace

theorem start (limits : Limits) : (fresh limits).InPlace :=
  ⟨nofun, nofun⟩

theorem withLimits (h : session.InPlace) (limits : Limits) : { session with limits }.InPlace :=
  ⟨h.names, h.supplies⟩

theorem setLexer (h : session.InPlace) (place : Nat) (lexer : Lexer) :
    (session.setLexer place lexer).InPlace := by
  have hlength : (session.setLexer place lexer).lexers.length = session.lexers.length :=
    List.length_set
  refine ⟨fun name i hname => ?_, fun name parser hparser => ?_⟩
  · rw [hlength]; exact h.names name i hname
  · rw [hlength]; exact h.supplies name parser hparser

theorem setParser (h : session.InPlace) (name : Text) {parser : Parser Nat}
    (hparser : parser.supply < session.lexers.length) :
    (session.setParser name parser).InPlace := by
  refine ⟨h.names, fun other found hfound => ?_⟩
  rcases lookup_cons_eq_some.1 hfound with ⟨-, rfl⟩ | ⟨-, hfound⟩
  · exact hparser
  · exact h.supplies other found hfound

/-- The session with one more lexer. -/
theorem add (h : session.InPlace) (name : Text) (lexer : Lexer) :
    InPlace { session with
      lexers := session.lexers ++ [lexer]
      lexerNames := (name, session.lexers.length) :: session.lexerNames } := by
  refine ⟨fun other i hname => ?_, fun other parser hparser => ?_⟩
  · rw [List.length_append]
    rcases lookup_cons_eq_some.1 hname with ⟨-, rfl⟩ | ⟨-, hname⟩
    · exact Nat.lt_succ_self _
    · exact Nat.lt_succ_of_lt (h.names other i hname)
  · rw [List.length_append]
    exact Nat.lt_succ_of_lt (h.supplies other parser hparser)

end InPlace

/-! ## What a session of its own shows -/

/-- A session of its own shows what another session has at a place: the lexer there, if it has been
    built, and under every name that leads to a parser over that lexer this parser. -/
structure Shows (place : Nat) (session alone : Session) : Prop where
  inPlace : session.InPlace
  unlimited : alone.limits.maxBytes = none
  lexers_eq : alone.lexers = session.lexers[place]?.toList
  named : alone.lexers ≠ [] → alone.lexerNames.lookup [] = some 0
  parsers : ∀ name parser, session.parsers.lookup name = some parser → parser.supply = place →
    alone.parsers.lookup name = some (parser.withSupply 0)

namespace Shows

variable {alone : Session}

theorem start (limits : Limits) (place : Nat) : Shows place (fresh limits) (fresh {}) :=
  ⟨InPlace.start limits, rfl, rfl, fun h => absurd rfl h, nofun⟩

theorem withLimits (h : Shows place session alone) (limits : Limits) :
    Shows place { session with limits } alone :=
  ⟨h.inPlace.withLimits limits, h.unlimited, h.lexers_eq, h.named, h.parsers⟩

/-- The lexer at the place is the only lexer of the session of its own. -/
theorem lexer?_alone (h : Shows place session alone) {lexer : Lexer}
    (hlexer : session.lexers[place]? = some lexer) :
    alone.lexers = [lexer] ∧ alone.lexer? [] = some (0, lexer) := by
  have hlexers : alone.lexers = [lexer] := by rw [h.lexers_eq, hlexer]; rfl
  have hnamed := h.named (by rw [hlexers]; simp)
  refine ⟨hlexers, ?_⟩
  simp [lexer?, hnamed, hlexers]

/-! Changes elsewhere -/

theorem setLexer (h : Shows place session alone) {elsewhere : Nat} (hne : elsewhere ≠ place)
    (lexer : Lexer) : Shows place (session.setLexer elsewhere lexer) alone := by
  refine ⟨h.inPlace.setLexer elsewhere lexer, h.unlimited, ?_, h.named, h.parsers⟩
  rw [h.lexers_eq]
  exact congrArg Option.toList (List.getElem?_set_ne hne).symm

theorem setParser (h : Shows place session alone) (name : Text) {parser : Parser Nat}
    (hparser : parser.supply < session.lexers.length) (hne : parser.supply ≠ place) :
    Shows place (session.setParser name parser) alone := by
  refine ⟨h.inPlace.setParser name hparser, h.unlimited, h.lexers_eq, h.named, ?_⟩
  intro other found hfound hsupply
  rcases lookup_cons_eq_some.1 hfound with ⟨-, rfl⟩ | ⟨-, hfound⟩
  · exact absurd hsupply hne
  · exact h.parsers other found hfound hsupply

theorem add (h : Shows place session alone) (hne : session.lexers.length ≠ place) (name : Text)
    (lexer : Lexer) :
    Shows place { session with
      lexers := session.lexers ++ [lexer]
      lexerNames := (name, session.lexers.length) :: session.lexerNames } alone := by
  refine ⟨h.inPlace.add name lexer, h.unlimited, ?_, h.named, h.parsers⟩
  rw [h.lexers_eq, List.getElem?_append]
  split
  · rfl
  · rw [List.getElem?_eq_none (by omega), List.getElem?_eq_none (by simp; omega)]

/-! Changes at the place -/

theorem setLexer_own (h : Shows place session alone) {old : Lexer}
    (hold : session.lexers[place]? = some old) (lexer : Lexer) :
    Shows place (session.setLexer place lexer) (alone.setLexer 0 lexer) := by
  obtain ⟨hlexers, -⟩ := h.lexer?_alone hold
  obtain ⟨hlt, -⟩ := List.getElem?_eq_some_iff.1 hold
  refine ⟨h.inPlace.setLexer place lexer, h.unlimited, ?_, fun _ => h.named ?_, h.parsers⟩
  · simp [Session.setLexer, hlexers, List.getElem?_set_self hlt]
  · rw [hlexers]; simp

theorem setParser_own (h : Shows place session alone) (name : Text) {parser : Parser Nat}
    (hplace : place < session.lexers.length) (hparser : parser.supply = place) :
    Shows place (session.setParser name parser)
      (alone.setParser name (parser.withSupply 0)) := by
  refine ⟨h.inPlace.setParser name (hparser ▸ hplace), h.unlimited, h.lexers_eq, h.named, ?_⟩
  intro other found hfound hsupply
  rcases lookup_cons_eq_some.1 hfound with ⟨hname, rfl⟩ | ⟨hname, hfound⟩
  · exact lookup_cons_eq_some.2 (.inl ⟨hname, rfl⟩)
  · exact lookup_cons_eq_some.2 (.inr ⟨hname, h.parsers other found hfound hsupply⟩)

theorem add_own (h : Shows place session alone) (hplace : session.lexers.length = place)
    (name : Text) (lexer : Lexer) :
    Shows place { session with
        lexers := session.lexers ++ [lexer]
        lexerNames := (name, session.lexers.length) :: session.lexerNames }
      { alone with
        lexers := alone.lexers ++ [lexer]
        lexerNames := ([], alone.lexers.length) :: alone.lexerNames } := by
  have hlexers : alone.lexers = [] := by
    rw [h.lexers_eq, List.getElem?_eq_none (Nat.le_of_eq hplace)]
    rfl
  refine ⟨h.inPlace.add name lexer, h.unlimited, ?_, fun _ => ?_, ?_⟩
  · simp [hlexers, ← hplace]
  · simp [hlexers]
  · exact h.parsers

end Shows

/-! ## Steps -/

section Equations

variable {name source : Text} {maxBytes maxDepth : Option Int} {lexer : Lexer}
  {parser : Parser Nat}

theorem addLexer_refused {reason : Refusal}
    (h : Lexer.build session.limits maxBytes source = .error reason) :
    session.addLexer name source maxBytes = (.error (.refused reason), session) := by
  simp only [addLexer, h]

theorem addLexer_built (h : Lexer.build session.limits maxBytes source = .ok lexer) :
    session.addLexer name source maxBytes = (.ok .done, { session with
      lexers := session.lexers ++ [lexer]
      lexerNames := (name, session.lexers.length) :: session.lexerNames }) := by
  simp only [addLexer, h]

theorem addParser_found {lexerName : Text} (h : session.lexerNames.lookup lexerName = some place) :
    session.addParser name lexerName maxDepth =
      (.ok (.depth (maxDepth.getD session.limits.maxDepth)),
        session.setParser name (Parser.build session.limits maxDepth place)) := by
  simp only [addParser, h]
  rfl

/-- What comes of asking for a token is up to the lexer alone, whatever its name and place. -/
theorem nextToken_found (lexer : Lexer) : ∃ answer lexer', ∀ (session : Session) (place : Nat)
    (name : Text), session.lexer? name = some (place, lexer) →
      session.nextToken name = (answer, session.setLexer place lexer') := by
  cases hnext : Lexer.nextToken lexer with
  | ok item lexer' =>
      exact ⟨.ok (.item item), lexer', fun session place name h => by
        simp only [nextToken, h, hnext]⟩
  | error error lexer' =>
      exact ⟨.error (.source (.lexical error)), lexer', fun session place name h => by
        simp only [nextToken, h, hnext]⟩

theorem runParser_found (hparser : session.parsers.lookup name = some parser)
    (hlexer : session.lexers[parser.supply]? = some lexer) :
    session.runParser name =
      let run := Parse.outcome (Parse.program (parser.withSupply lexer))
      (run.1.map fun program => .dump program.dump,
        (session.setLexer parser.supply run.2.supply).setParser name
          (run.2.withSupply parser.supply)) := by
  simp only [runParser, hparser, hlexer]

end Equations

/-- What a step leaves of the two sessions: one that does not concern the place leaves the session
    of its own as it is, and one that does gets the same answer there. -/
def Accords (place : Nat) (alone : Session) (own : Option SessionStep)
    (result : Except Failure SessionAnswer × Session) : Prop :=
  match own with
  | none => Shows place result.2 alone
  | some own => (alone.step own).1 = result.1 ∧ Shows place result.2 (alone.step own).2

/-- What leads elsewhere does not lead to the place. -/
theorem ne_some_place {found : Option Nat} {elsewhere : Nat} (hfound : found = some elsewhere)
    (hne : elsewhere ≠ place) : found ≠ some place := by
  rw [hfound]
  exact fun hsame => hne (Option.some.inj hsame)

namespace Accords

variable {alone : Session} {own : Option SessionStep} {op : SessionStep}
  {result aloneResult : Except Failure SessionAnswer × Session}

theorem elsewhere (hown : own = none) (h : Shows place result.2 alone) :
    Accords place alone own result := by
  subst hown
  exact h

theorem here (hown : own = some op) (halone : alone.step op = aloneResult)
    (hanswer : aloneResult.1 = result.1) (h : Shows place result.2 aloneResult.2) :
    Accords place alone own result := by
  subst hown halone
  exact ⟨hanswer, h⟩

end Accords

namespace Shows

variable {alone : Session}

theorem addLexer (h : Shows place session alone) (name source : Text) (maxBytes : Option Int) :
    Accords place alone (session.ownStep? place (.lexer name source maxBytes))
      (session.addLexer name source maxBytes) := by
  cases hbuild : Lexer.build session.limits maxBytes source with
  | error reason =>
      rw [addLexer_refused hbuild]
      exact .elsewhere (if_neg (by rw [hbuild]; exact fun h => absurd h.2 nofun)) h
  | ok lexer =>
      rw [addLexer_built hbuild]
      by_cases hplace : session.lexers.length = place
      · have halone := (Lexer.build_orElse h.unlimited session.limits maxBytes source).trans hbuild
        exact .here (if_pos ⟨hplace, by rw [hbuild]; rfl⟩) (addLexer_built halone) rfl
          (h.add_own hplace name lexer)
      · exact .elsewhere (if_neg fun h => hplace h.1) (h.add hplace name lexer)

theorem addParser (h : Shows place session alone) (name lexer : Text) (maxDepth : Option Int) :
    Accords place alone (session.ownStep? place (.parser name lexer maxDepth))
      (session.addParser name lexer maxDepth) := by
  cases hname : session.lexerNames.lookup lexer with
  | none =>
      refine .elsewhere (if_neg (by rw [hname]; nofun)) ?_
      simp only [Session.addParser, hname]
      exact h
  | some elsewhere =>
      have hlt := h.inPlace.names lexer elsewhere hname
      rw [addParser_found hname]
      by_cases hplace : elsewhere = place
      · subst hplace
        obtain ⟨hlexers, -⟩ := h.lexer?_alone (List.getElem?_eq_getElem hlt)
        have hnamed := h.named (by rw [hlexers]; simp)
        exact .here (if_pos hname) (addParser_found hnamed) rfl (h.setParser_own name hlt rfl)
      · exact .elsewhere (if_neg (ne_some_place hname hplace)) (h.setParser name hlt hplace)

theorem nextToken (h : Shows place session alone) (name : Text) :
    Accords place alone (session.ownStep? place (.next name)) (session.nextToken name) := by
  cases hname : session.lexerNames.lookup name with
  | none =>
      refine .elsewhere (if_neg (by rw [hname]; nofun)) ?_
      simp only [Session.nextToken, lexer?, hname]
      exact h
  | some elsewhere =>
      obtain ⟨lexer, hlexer⟩ : ∃ lexer, session.lexers[elsewhere]? = some lexer :=
        ⟨_, List.getElem?_eq_getElem (h.inPlace.names name elsewhere hname)⟩
      obtain ⟨answer, lexer', hnext⟩ := nextToken_found lexer
      rw [hnext session elsewhere name (by simp [lexer?, hname, hlexer])]
      by_cases hplace : elsewhere = place
      · subst hplace
        exact .here (if_pos hname) (hnext alone 0 [] (h.lexer?_alone hlexer).2) rfl
          (h.setLexer_own hlexer lexer')
      · exact .elsewhere (if_neg (ne_some_place hname hplace)) (h.setLexer hplace lexer')

theorem runParser (h : Shows place session alone) (name : Text) :
    Accords place alone (session.ownStep? place (.run name)) (session.runParser name) := by
  cases hname : session.parsers.lookup name with
  | none =>
      refine .elsewhere (if_neg (by rw [hname]; nofun)) ?_
      simp only [Session.runParser, hname]
      exact h
  | some parser =>
      have hlt := h.inPlace.supplies name parser hname
      have hlexer := List.getElem?_eq_getElem hlt
      rw [runParser_found hname hlexer]
      -- the parser is set in a session in which its lexer has been replaced
      have hset (lexer : Lexer) :
          parser.supply < (session.setLexer parser.supply lexer).lexers.length :=
        Nat.lt_of_lt_of_eq hlt List.length_set.symm
      have hsupply : (session.parsers.lookup name).map Parser.supply = some parser.supply := by
        rw [hname]; rfl
      by_cases hplace : parser.supply = place
      · have hparser := h.parsers name parser hname hplace
        subst hplace
        obtain ⟨hlexers, -⟩ := h.lexer?_alone hlexer
        exact .here (if_pos hsupply) (runParser_found hparser (by rw [hlexers]; rfl)) rfl
          ((h.setLexer_own hlexer _).setParser_own name (hset _) rfl)
      · exact .elsewhere (if_neg (ne_some_place hsupply hplace))
          ((h.setLexer hplace _).setParser name (hset _) hplace)

/-- Every step keeps to what the session of its own shows. -/
theorem step (h : Shows place session alone) (op : SessionStep) :
    Accords place alone (session.ownStep? place op) (session.step op) := by
  cases op with
  | setMaxBytes value => exact h.withLimits _
  | setMaxDepth value => exact h.withLimits _
  | lexer name source maxBytes => exact h.addLexer name source maxBytes
  | parser name lexer maxDepth => exact h.addParser name lexer maxDepth
  | next name => exact h.nextToken name
  | run name => exact h.runParser name
  | parse source maxBytes => exact h
  | tokenize source maxBytes => exact h

/-- The answers that a lexer and its parsers get are those of the session of its own. -/
theorem answers (h : Shows place session alone) (ops : List SessionStep) :
    session.ownAnswers place ops = alone.runSteps (session.ownSteps place ops) := by
  induction ops generalizing session alone with
  | nil => rfl
  | cons op ops ih =>
      have hstep := h.step op
      cases hown : session.ownStep? place op with
      | none =>
          rw [hown] at hstep
          rw [ownSteps_cons_none hown, ownAnswers_cons_none hown]
          exact ih hstep
      | some own =>
          rw [hown] at hstep
          rw [ownSteps_cons_some hown, ownAnswers_cons_some hown, ih hstep.2, ← hstep.1]
          rfl

end Shows

/-- **What happens to a lexer and its parsers does not depend on anything else.** They get the
    answers that they get in a session of their own. -/
theorem ownAnswers_eq (limits : Limits) (place : Nat) (ops : List SessionStep) :
    (fresh limits).ownAnswers place ops =
      (fresh {}).runSteps ((fresh limits).ownSteps place ops) :=
  (Shows.start limits place).answers ops

/-! ## Limits -/

/-- Under a size limit of its own, a lexer is built alike whatever the limits in force are. -/
theorem step_lexer_withLimits (session : Session) (limits : Limits) (name source : Text)
    (bytes : Int) :
    { session with limits }.step (.lexer name source (some bytes)) =
      ((session.step (.lexer name source (some bytes))).1,
        { (session.step (.lexer name source (some bytes))).2 with limits }) := by
  have hsame : Lexer.build limits (some bytes) source =
      Lexer.build session.limits (some bytes) source := rfl
  simp only [step, addLexer, hsame]
  cases Lexer.build session.limits (some bytes) source <;> rfl

/-- Under a nesting limit of its own, a parser is built alike whatever the limits in force are. -/
theorem step_parser_withLimits (session : Session) (limits : Limits) (name lexer : Text)
    (depth : Int) :
    { session with limits }.step (.parser name lexer (some depth)) =
      ((session.step (.parser name lexer (some depth))).1,
        { (session.step (.parser name lexer (some depth))).2 with limits }) := by
  simp only [step, addParser]
  cases session.lexerNames.lookup lexer <;> rfl

/-- Building a lexer fails exactly when the source is longer than the limit that counts, and then
    the session stays as it is. -/
theorem step_lexer_eq_error {name source : Text} {maxBytes : Option Int} {failure : Failure}
    (h : (session.step (.lexer name source maxBytes)).1 = .error failure) :
    (session.step (.lexer name source maxBytes)).2 = session ∧
      ∃ limit, (maxBytes <|> session.limits.maxBytes) = some limit ∧ limit < Utf8.size source ∧
        failure = .refused (.sourceTooLong (Utf8.size source) limit) := by
  simp only [step] at h ⊢
  cases hbuild : Lexer.build session.limits maxBytes source with
  | ok lexer => rw [addLexer_built hbuild] at h; exact absurd h nofun
  | error reason =>
      rw [addLexer_refused hbuild] at h ⊢
      obtain ⟨limit, hlimit, hlong, rfl⟩ := Lexer.build_eq_error_iff.1 hbuild
      exact ⟨rfl, limit, hlimit, hlong, (Except.error.inj h).symm⟩

theorem step_lexer_of_lt {name source : Text} {maxBytes : Option Int} {limit : Int}
    (hlimit : (maxBytes <|> session.limits.maxBytes) = some limit)
    (hlong : limit < Utf8.size source) :
    session.step (.lexer name source maxBytes) =
      (.error (.refused (.sourceTooLong (Utf8.size source) limit)), session) :=
  addLexer_refused (Lexer.build_eq_error_iff.2 ⟨limit, hlimit, hlong, rfl⟩)

/-! ## Independence -/

/-- **The objects of a session do not interfere.** When two sequences of steps agree on those that
    concern one lexer and its parsers, with the limits that counted when these were built, they
    agree on the answers to them, whatever else there is in either. A limit that is given with a
    build makes it independent of the limits in force, and a lexer that is refused, because its
    source is longer than the limit, changes nothing. -/
theorem objects_independent :
    (∀ (limits₁ limits₂ : Limits) (place₁ place₂ : Nat) (ops₁ ops₂ : List SessionStep),
      (fresh limits₁).ownSteps place₁ ops₁ = (fresh limits₂).ownSteps place₂ ops₂ →
      (fresh limits₁).ownAnswers place₁ ops₁ = (fresh limits₂).ownAnswers place₂ ops₂) ∧
    (∀ (session : Session) (limits : Limits) (name source lexer : Text) (bytes depth : Int),
      ∀ op ∈ [.lexer name source (some bytes), .parser name lexer (some depth)],
        { session with limits }.step op =
          ((session.step op).1, { (session.step op).2 with limits })) ∧
    ∀ (session : Session) (name source : Text) (maxBytes : Option Int),
      (∀ limit, (maxBytes <|> session.limits.maxBytes) = some limit → limit < Utf8.size source →
        session.step (.lexer name source maxBytes) =
          (.error (.refused (.sourceTooLong (Utf8.size source) limit)), session)) ∧
      ∀ failure, (session.step (.lexer name source maxBytes)).1 = .error failure →
        (session.step (.lexer name source maxBytes)).2 = session ∧
          ∃ limit, (maxBytes <|> session.limits.maxBytes) = some limit ∧
            limit < Utf8.size source ∧
            failure = .refused (.sourceTooLong (Utf8.size source) limit) := by
  refine ⟨fun limits₁ limits₂ place₁ place₂ ops₁ ops₂ h => ?_, ?_, ?_⟩
  · rw [ownAnswers_eq, ownAnswers_eq, h]
  · intro session limits name source lexer bytes depth op hop
    simp only [List.mem_cons, List.not_mem_nil, or_false] at hop
    rcases hop with rfl | rfl
    · exact session.step_lexer_withLimits limits name source bytes
    · exact session.step_parser_withLimits limits name lexer depth
  · exact fun session name source maxBytes =>
      ⟨fun limit => step_lexer_of_lt, fun failure => step_lexer_eq_error⟩

/-- A name and a statement, first with a lexer and limits that come later, then behind another lexer
    and before a refused one. -/
theorem objects_independent_name :
    let ops₁ : List SessionStep :=
      [.lexer ['a'] ['x', ';'] none, .parser ['p'] ['a'] none, .setMaxBytes (some 0),
        .setMaxDepth 0, .lexer ['b'] [] none, .next ['b'], .run ['p'], .next ['a']]
    let ops₂ : List SessionStep :=
      [.lexer ['a'] ['('] none, .lexer ['b'] ['x', ';'] none, .next ['c'], .next ['a'],
        .setMaxDepth 100, .parser ['p'] ['b'] none, .lexer ['b'] ['y'] (some 0), .run ['p'],
        .parse ['('] none, .next ['b']]
    (fresh {}).ownSteps 0 ops₁ = (fresh ⟨none, 1⟩).ownSteps 1 ops₂ ∧
      (fresh {}).ownAnswers 0 ops₁ = (fresh ⟨none, 1⟩).ownAnswers 1 ops₂ :=
  ⟨by decide, objects_independent.1 _ _ _ _ _ _ (by decide)⟩

end Session

end ScriptFront
