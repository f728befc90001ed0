import ScriptFront.Proofs.Lexer.Yield
import ScriptFront.Proofs.Parser.Buffering
import ScriptFront.Proofs.Parser.Completeness
import ScriptFront.Proofs.Parser.Lookahead

set_option autoImplicit false

/-! # Reading straight from a lexer

A parser over a lexer pulls its tokens while it reads, and a lexical error is met only where one
more token is asked for. Such a run keeps in step with the run of the plain machine over the tokens
that the lexer gives (`Follows`): as long as no lexical error is met both do the same, and once it
is met the plain machine is at the end of its items (`Stranded`) and can only succeed there or
complain of that end. The two runs may have different fuel, as long as both have enough. -/

namespace ScriptFront

open Run Parse

/-! ## Pulling tokens -/

section Pulling

variable {ending : Option LexError} {plain : Unbuffered}

/-- The parser stands before the same items as the plain machine, at the same level. Those that are
    not in its buffer are what its lexer still gives before the error, if one ends them. -/
def Abreast (ending : Option LexError) (parser : Parser Lexer) (plain : Unbuffered) : Prop :=
  ∃ unread, parser.supply.Yields unread ending ∧
    plain = ⟨parser.lookahead ++ unread, parser.depth, parser.maxDepth⟩

/-- The buffer holds that many items, or all there are, and no error follows them. -/
def Pulled (ending : Option LexError) (count : Nat) (parser : Parser Lexer) (plain : Unbuffered) :
    Prop :=
  count ≤ parser.lookahead.length ∨ parser.lookahead = plain.items ∧ ending = none

/-- The lexical error behind the items is reported, and there are fewer of them than that. -/
def CutOff (ending : Option LexError) (count : Nat) (plain : Unbuffered) (error : SourceError) :
    Prop :=
  ∃ lexical, error = .lexical lexical ∧ ending = some lexical ∧ plain.items.length < count

namespace Parser

theorem pull_abreast (count : Nat) : ∀ {parser : Parser Lexer}, Abreast ending parser plain →
    Ensures (fun _ parser' => Abreast ending parser' plain ∧
        Pulled ending (parser.lookahead.length + count) parser' plain)
      (CutOff ending (parser.lookahead.length + count) plain) (pull count parser) := by
  induction count with
  | zero => intro parser h; exact ⟨h, .inl (Nat.le_refl _)⟩
  | succ count ih =>
      intro parser h
      obtain ⟨unread, hyields, rfl⟩ := h
      have hnext := hyields.next
      unfold pull
      cases hrun : Supply.next parser.supply with
      | error lexical supply =>
          rw [hrun] at hnext
          obtain ⟨rfl, hending⟩ := hnext
          exact ⟨lexical, rfl, hending, by simp⟩
      | ok item supply =>
          rw [hrun] at hnext
          obtain ⟨rfl, hrest, hend⟩ := hnext
          cases unread with
          | nil => exact ⟨⟨[], hrest, rfl⟩, .inr ⟨by simp, hend rfl⟩⟩
          | cons item unread =>
              have hpull := @ih { parser with lookahead := parser.lookahead ++ [item], supply }
                ⟨unread, hrest, by simp⟩
              have hcount : (parser.lookahead ++ [item]).length + count =
                  parser.lookahead.length + (count + 1) := by simp; omega
              simp only [hcount] at hpull
              exact hpull

theorem fill_abreast (count : Nat) {parser : Parser Lexer} (h : Abreast ending parser plain) :
    Ensures (fun _ parser' => Abreast ending parser' plain ∧ Pulled ending count parser' plain)
      (CutOff ending count plain) (fill count parser) := by
  have hpull := pull_abreast (count - parser.lookahead.length) h
  show Ensures _ _ (pull (count - parser.lookahead.length) parser)
  cases hrun : pull (count - parser.lookahead.length) parser with
  | ok _ parser' =>
      rw [hrun] at hpull
      refine ⟨hpull.1, hpull.2.imp_left fun hle => ?_⟩
      omega
  | error error parser' =>
      rw [hrun] at hpull
      obtain ⟨lexical, herror, hending, hlt⟩ := hpull
      obtain ⟨unread, -, rfl⟩ := h
      rw [List.length_append] at hlt
      exact ⟨lexical, herror, hending, by rw [List.length_append]; omega⟩

/-- Looking ahead answers the item of that place, unless the lexical error is met first. -/
theorem look_abreast (ahead : Nat) {parser : Parser Lexer} (h : Abreast ending parser plain) :
    Ensures (fun item parser' => item = plain.items[ahead]? ∧ Abreast ending parser' plain ∧
        (item = none → ending = none))
      (CutOff ending (ahead + 1) plain) (look ahead parser) := by
  refine (fill_abreast (ahead + 1) h).bind fun _ parser' hfilled => ?_
  obtain ⟨habreast, hpulled⟩ := hfilled
  have hitem : parser'.lookahead[ahead]? = plain.items[ahead]? ∧
      (parser'.lookahead[ahead]? = none → ending = none) := by
    rcases hpulled with hlt | ⟨hall, hend⟩
    · obtain ⟨unread, -, rfl⟩ := habreast
      refine ⟨(List.getElem?_append_left hlt).symm, fun hnone => ?_⟩
      rw [List.getElem?_eq_none_iff] at hnone
      omega
    · exact ⟨by rw [hall], fun _ => hend⟩
  exact ⟨hitem.1, habreast, hitem.2⟩

/-- Taking an item takes the first one, unless the lexical error is met. -/
theorem take_abreast {parser : Parser Lexer} (h : Abreast ending parser plain) :
    Ensures (fun item parser' => item = plain.items.head? ∧
        Abreast ending parser' { plain with items := plain.items.tail } ∧
        (item = none → ending = none))
      (CutOff ending 1 plain) (take parser) := by
  rw [show take parser = (fill 1 >>= fun _ => pop) parser from congrFun take_eq parser]
  refine (fill_abreast 1 h).bind fun _ parser' hfilled => ?_
  obtain ⟨⟨unread, hyields, rfl⟩, hpulled⟩ := hfilled
  cases hbuffer : parser'.lookahead with
  | cons item rest =>
      rw [pop_cons hbuffer]
      exact ⟨rfl, ⟨unread, hyields, rfl⟩, nofun⟩
  | nil =>
      rw [pop_nil hbuffer]
      rcases hpulled with hlt | ⟨hall, hend⟩
      · rw [hbuffer] at hlt; exact absurd hlt (by simp)
      · obtain rfl : unread = [] := by simpa using hall
        exact ⟨rfl, ⟨[], hyields, by rw [hbuffer]; rfl⟩, fun _ => hend⟩

end Parser

end Pulling

/-! ## Runs in step -/

/-- The run over a lexer goes with the run over its items. Both end alike, as `kept` says, or both
    report the same syntax error, which complains of the end of the input only if no lexical error
    stands there; or the run over the lexer reports that lexical error, and the other one complains
    of the end of the input or ends as `out` says. -/
def Follows {α β : Type} (ending : Option LexError) (image : α → β)
    (kept : α → Parser Lexer → Unbuffered → Prop) (out : α → Unbuffered → Prop) :
    EStateM.Result SourceError (Parser Lexer) α → EStateM.Result SourceError Unbuffered β → Prop
  | .ok a parser, .ok b plain => b = image a ∧ kept a parser plain
  | .error (.syntactic error) _, .error error' _ =>
    error' = .syntactic error ∧ (error.token = none → ending = none)
  | .error (.lexical lexical) _, result => ending = some lexical ∧
    Ensures (fun b plain => ∃ a, b = image a ∧ out a plain) (· = .syntactic .atEnd) result
  | _, _ => False

namespace Follows

variable {α β γ δ : Type} {ending : Option LexError} {parser : Parser Lexer} {plain : Unbuffered}
  {image : α → β} {kept : α → Parser Lexer → Unbuffered → Prop} {out : α → Unbuffered → Prop}
  {image' : γ → δ} {kept' : γ → Parser Lexer → Unbuffered → Prop} {out' : γ → Unbuffered → Prop}

theorem bind {p : Parse (Parser Lexer) α} {q : Parse Unbuffered β}
    {f : α → Parse (Parser Lexer) γ} {g : β → Parse Unbuffered δ}
    (h : Follows ending image kept out (p parser) (q plain))
    (hkept : ∀ a parser' plain', kept a parser' plain' →
      Follows ending image' kept' out' (f a parser') (g (image a) plain'))
    (hout : ∀ a plain', out a plain' → Ensures (fun b plain => ∃ c, b = image' c ∧ out' c plain)
      (· = .syntactic .atEnd) (g (image a) plain')) :
    Follows ending image' kept' out' ((p >>= f) parser) ((q >>= g) plain) := by
  cases hp : p parser with
  | ok a parser' =>
      rw [hp] at h
      rw [bind_of_ok hp]
      cases hq : q plain with
      | ok b plain' =>
          rw [hq] at h
          obtain ⟨rfl, hab⟩ := h
          rw [bind_of_ok hq]
          exact hkept a parser' plain' hab
      | error error plain' => rw [hq] at h; exact h.elim
  | error error parser' =>
      rw [hp] at h
      rw [bind_of_error hp]
      cases error with
      | lexical lexical =>
          refine ⟨h.1, h.2.bind ?_⟩
          rintro _ plain' ⟨a, rfl, ha⟩
          exact hout a plain' ha
      | syntactic error =>
          cases hq : q plain with
          | ok b plain' => rw [hq] at h; exact h.elim
          | error error' plain' =>
              rw [hq] at h
              rw [bind_of_error hq]
              exact h

/-- An operation that the plain machine does without an error. -/
theorem of_ensures {p : Parse (Parser Lexer) α} {q : Parse Unbuffered β} {count : Nat}
    {done : α → Parser Lexer → Prop} {b : β} {plain' : Unbuffered}
    (hp : Ensures done (CutOff ending count plain) (p parser)) (hq : q plain = .ok b plain')
    (hkept : ∀ a parser', done a parser' → b = image a ∧ kept a parser' plain')
    (hout : plain.items.length < count → ∃ a, b = image a ∧ out a plain') :
    Follows ending image kept out (p parser) (q plain) := by
  rw [hq]
  cases hrun : p parser with
  | ok a parser' => rw [hrun] at hp; exact hkept a parser' hp
  | error error parser' =>
      rw [hrun] at hp
      obtain ⟨lexical, rfl, hending, hlt⟩ := hp
      exact ⟨hending, hout hlt⟩

/-- Where the run over the items succeeds and no error follows them, the run over the lexer
    succeeds. -/
theorem of_ok {res : EStateM.Result SourceError (Parser Lexer) α} {b : β}
    (h : Follows none image kept out res (.ok b plain)) :
    ∃ a parser, res = .ok a parser ∧ b = image a ∧ kept a parser plain := by
  rcases res with ⟨a, parser⟩ | ⟨_ | _, parser⟩
  · exact ⟨a, parser, rfl, h⟩
  · exact absurd h.1 nofun
  · exact h.elim

/-- Nothing need be said of an image that changes nothing. -/
theorem identity {image : α → α} {r : EStateM.Result SourceError (Parser Lexer) α}
    {r' : EStateM.Result SourceError Unbuffered α} (h : Follows ending image kept out r r')
    (himage : ∀ a, image a = a) : Follows ending id kept out r r' := by
  obtain rfl : image = id := funext himage
  exact h

theorem imp {kept₂ : α → Parser Lexer → Unbuffered → Prop} {out₂ : α → Unbuffered → Prop}
    {r : EStateM.Result SourceError (Parser Lexer) α} {r' : EStateM.Result SourceError Unbuffered β}
    (h : Follows ending image kept out r r') (hkept : ∀ a parser plain, kept a parser plain →
      kept₂ a parser plain) (hout : ∀ a plain, out a plain → out₂ a plain) :
    Follows ending image kept₂ out₂ r r' := by
  cases r with
  | ok a parser =>
      cases r' with
      | ok b plain => exact ⟨h.1, hkept a parser plain h.2⟩
      | error error plain => exact h.elim
  | error error parser =>
      cases error with
      | lexical lexical =>
          exact ⟨h.1, h.2.imp (fun b plain ⟨a, hb, ha⟩ => ⟨a, hb, hout a plain ha⟩) fun _ => id⟩
      | syntactic error => cases r' <;> exact h

theorem deeper {body : Parse (Parser Lexer) α} {body' : Parse Unbuffered β}
    (h : Follows ending image (fun a parser plain => kept a (TokenMachine.leave parser)
        (TokenMachine.leave plain)) (fun a plain => out a (TokenMachine.leave plain))
      (body (TokenMachine.enter parser)) (body' (TokenMachine.enter plain))) :
    Follows ending image kept out (Parse.deeper body parser) (Parse.deeper body' plain) := by
  unfold Parse.deeper
  revert h
  cases body (TokenMachine.enter parser) with
  | ok a parser' => cases body' (TokenMachine.enter plain) <;> exact id
  | error error parser' =>
      cases error <;> cases body' (TokenMachine.enter plain) <;> exact id

end Follows

/-! ## Steps -/

section Steps

variable {ending : Option LexError} {parser : Parser Lexer} {plain : Unbuffered}

theorem Abreast.enter (h : Abreast ending parser plain) :
    Abreast ending (TokenMachine.enter parser) (TokenMachine.enter plain) := by
  obtain ⟨unread, hyields, rfl⟩ := h
  exact ⟨unread, hyields, rfl⟩

theorem Abreast.leave (h : Abreast ending parser plain) :
    Abreast ending (TokenMachine.leave parser) (TokenMachine.leave plain) := by
  obtain ⟨unread, hyields, rfl⟩ := h
  exact ⟨unread, hyields, rfl⟩

theorem current_follows (h : Abreast ending parser plain) :
    Follows ending (Option.map Relabelling.unchanged.item)
      (fun item parser' plain' => plain' = plain ∧ Abreast ending parser' plain ∧
        item = plain.items.head? ∧ (item = none → ending = none))
      (fun item plain' => item = none ∧ plain' = plain ∧ plain.items = [])
      (current parser) (current plain) := by
  have hplain : current plain = .ok plain.items.head? plain := by
    rw [List.head?_eq_getElem?]; rfl
  refine .of_ensures (Parser.look_abreast 0 h) hplain (fun item parser' hlook => ?_)
    (fun hlt => ?_)
  · obtain ⟨hitem, habreast, hend⟩ := hlook
    rw [← List.head?_eq_getElem?] at hitem
    exact ⟨by rw [Relabelling.map_item_unchanged, hitem], rfl, habreast, hitem, hend⟩
  · have hnil : plain.items = [] := List.length_eq_zero_iff.1 (by omega)
    exact ⟨none, by rw [hnil]; rfl, rfl, rfl, hnil⟩

theorem take_follows (h : Abreast ending parser plain) :
    Follows ending (Option.map Relabelling.unchanged.item)
      (fun item parser' plain' => plain.items = item.toList ++ plain'.items ∧
        Abreast ending parser' plain' ∧ (item = none → plain'.items = [] ∧ ending = none))
      (fun item plain' => item = none ∧ plain' = plain ∧ plain.items = [])
      (TokenMachine.take parser) (TokenMachine.take plain) := by
  obtain ⟨items, depth, maxDepth⟩ := plain
  have hplain : TokenMachine.take (⟨items, depth, maxDepth⟩ : Unbuffered) =
      .ok items.head? ⟨items.tail, depth, maxDepth⟩ := by cases items <;> rfl
  refine .of_ensures (Parser.take_abreast h) hplain (fun item parser' htaken => ?_)
    (fun hlt => ?_)
  · obtain ⟨rfl, habreast, hend⟩ := htaken
    refine ⟨(Relabelling.map_item_unchanged _).symm, ?_, habreast, fun hnone => ⟨?_, hend hnone⟩⟩
    · cases items <;> rfl
    · obtain rfl : items = [] := List.head?_eq_none_iff.1 hnone
      rfl
  · obtain rfl : items = [] := List.length_eq_zero_iff.1 (by simpa using hlt)
    exact ⟨none, rfl, rfl, rfl, rfl⟩

end Steps

/-! ## Phases -/

/-- The plain machine has no items left, or nothing but a name. -/
def Unbuffered.AtLast (plain : Unbuffered) : Prop :=
  plain.items = [] ∨ ∃ name, plain.items = [name] ∧ name.kind = .identifier

/-- Where the two runs are in a phase, if there were no more than `total` items when they began. -/
def Together (ending : Option LexError) (total : Nat) :
    Phase → Parser Lexer → Unbuffered → Prop
  | .clear taken, parser, plain | .settled taken, parser, plain | .ahead taken, parser, plain
  | .stands _ taken, parser, plain =>
    Abreast ending parser plain ∧ plain.items.length + taken ≤ total
  | .sees item taken, parser, plain | .meets item taken, parser, plain =>
    Abreast ending parser plain ∧ plain.items.length + taken ≤ total ∧
      item = plain.items.head? ∧ (item = none → ending = none)
  | .opens start taken, parser, plain =>
    Abreast ending parser plain ∧ plain.items.length + taken ≤ total ∧
      plain.items.head? = some start
  | .ended, _, _ => ending = none

/-- Where the plain machine may be in a phase when the other run has met the lexical error: at the
    end of its items, or before an operand that is a name and the last of them. -/
def Stranded (total : Nat) : Phase → Unbuffered → Prop
  | .clear taken, plain | .settled taken, plain =>
    plain.items = [] ∧ plain.items.length + taken ≤ total
  | .ahead taken, plain => plain.AtLast ∧ plain.items.length + taken ≤ total
  | .sees item taken, plain =>
    item = none ∧ plain.items = [] ∧ plain.items.length + taken ≤ total
  | .meets item taken, plain =>
    item = plain.items.head? ∧ plain.AtLast ∧ plain.items.length + taken ≤ total
  | .stands _ _, _ | .opens _ _, _ => False
  | .ended, _ => True

section Phases

variable {ending : Option LexError} {total : Nat} {phase phase' : Phase} {parser : Parser Lexer}
  {plain : Unbuffered}

theorem Together.of_implies (h : phase.Implies phase')
    (htogether : Together ending total phase parser plain) :
    Together ending total phase' parser plain := by
  cases h with
  | clear | settled | atEnd | noName => exact htogether
  | later => exact ⟨htogether.1, by have := htogether.2; omega⟩
  | sees | meets | stands | opens => exact ⟨htogether.1, htogether.2.1⟩
  | ended => exact htogether.2.2.2 rfl

theorem Stranded.of_implies (h : phase.Implies phase') (hstranded : Stranded total phase plain) :
    Stranded total phase' plain := by
  cases h with
  | clear => exact hstranded
  | settled => exact ⟨.inl hstranded.1, hstranded.2⟩
  | later => exact ⟨hstranded.1, by have := hstranded.2; omega⟩
  | sees | meets => exact hstranded.2
  | atEnd => exact ⟨rfl, List.head?_eq_none_iff.1 hstranded.1.symm, hstranded.2.2⟩
  | noName hkind =>
      -- all that can be left is a name
      obtain ⟨hitem, hnil | ⟨name, hname, hident⟩, -⟩ := hstranded
      · rw [hnil] at hitem
        exact absurd hitem nofun
      · rw [hname] at hitem
        obtain rfl := Option.some.inj hitem
        exact absurd hident hkind
  | stands => exact absurd hstranded.1 nofun
  | opens => exact hstranded.elim
  | ended => trivial

end Phases

/-! ## The grammar -/

/-- Two operations keep in step from a phase on, and the second one goes on if the first has met the
    lexical error. -/
structure KeepsStep {α β : Type} (ending : Option LexError) (total : Nat) (before : Phase)
    (after : α → Phase) (image : α → β) (p : Parse (Parser Lexer) α) (q : Parse Unbuffered β) :
    Prop where
  together : ∀ parser plain, Together ending total before parser plain →
    Follows ending image (fun a => Together ending total (after a))
      (fun a => Stranded total (after a)) (p parser) (q plain)
  alone : ∀ plain, Stranded total before plain →
    Ensures (fun b plain' => ∃ a, b = image a ∧ Stranded total (after a) plain')
      (· = .syntactic .atEnd) (q plain)

namespace KeepsStep

variable {α β γ δ : Type} {ending : Option LexError} {total taken : Nat} {before : Phase}
  {after : α → Phase} {image : α → β} {p : Parse (Parser Lexer) α} {q : Parse Unbuffered β}

theorem bind {after' : γ → Phase} {image' : γ → δ} {f : α → Parse (Parser Lexer) γ}
    {g : β → Parse Unbuffered δ} (h : KeepsStep ending total before after image p q)
    (hf : ∀ a, KeepsStep ending total (after a) after' image' (f a) (g (image a))) :
    KeepsStep ending total before after' image' (p >>= f) (q >>= g) where
  together parser plain hstart :=
    (h.together parser plain hstart).bind (fun a => (hf a).together) fun a => (hf a).alone
  alone plain hstart := by
    refine (h.alone plain hstart).bind ?_
    rintro _ plain' ⟨a, rfl, hstranded⟩
    exact (hf a).alone plain' hstranded

theorem strengthen {before' : Phase} (himplies : before'.Implies before)
    (h : KeepsStep ending total before after image p q) :
    KeepsStep ending total before' after image p q where
  together parser plain hstart := h.together parser plain (hstart.of_implies himplies)
  alone plain hstart := h.alone plain (hstart.of_implies himplies)

theorem weaken {after' : α → Phase} (himplies : ∀ a, (after a).Implies (after' a))
    (h : KeepsStep ending total before after image p q) :
    KeepsStep ending total before after' image p q where
  together parser plain hstart := (h.together parser plain hstart).imp
    (fun a _ _ => .of_implies (himplies a)) fun a _ => .of_implies (himplies a)
  alone plain hstart := (h.alone plain hstart).imp
    (fun _ _ ⟨a, hb, ha⟩ => ⟨a, hb, ha.of_implies (himplies a)⟩) fun _ => id

/-- No more items are taken than there were. -/
theorem overdrawn (h : total < taken) :
    KeepsStep ending total (.settled taken) after image p q where
  together _ _ hstart := absurd hstart.2 (by omega)
  alone _ hstranded := absurd hstranded.2 (by omega)

/-- An item is blamed on both sides, where the plain machine cannot be alone. -/
theorem reject {item : Item} {complaint : Complaint}
    (halone : ∀ plain, ¬ Stranded total before plain) :
    KeepsStep ending total before after image (Parse.reject (some item) complaint)
      (Parse.reject (some (Relabelling.unchanged.item item)) complaint) where
  together parser plain _ := ⟨by rw [Relabelling.item_unchanged], nofun⟩
  alone plain hstranded := absurd hstranded (halone plain)

theorem deeper {start : Item}
    (h : KeepsStep ending total (.opens start taken) (fun _ => .settled taken) image p q) :
    KeepsStep ending total (.sees (some start) taken) (fun _ => .settled taken) image
      (Parse.deeper p) (Parse.deeper q) where
  together parser plain := by
    rintro ⟨habreast, hle, hitem, -⟩
    exact .deeper ((h.together _ _ ⟨habreast.enter, hle, hitem.symm⟩).imp
      (fun _ _ _ hsettled => ⟨hsettled.1.leave, hsettled.2⟩) fun _ _ => id)
  alone plain hstranded := absurd hstranded.1 nofun

theorem look : KeepsStep ending total (.settled taken) (.sees · taken)
    (Option.map Relabelling.unchanged.item) (TokenMachine.look 0) (TokenMachine.look 0) where
  together parser plain := by
    rintro ⟨habreast, hle⟩
    refine (current_follows habreast).imp ?_ ?_
    · rintro item parser' _ ⟨rfl, habreast', hlook⟩
      exact ⟨habreast', hle, hlook⟩
    · rintro item _ ⟨hitem, rfl, hnil⟩
      exact ⟨hitem, hnil, hle⟩
  alone plain := by
    rintro ⟨hnil, hle⟩
    exact ⟨none, by rw [hnil]; rfl, rfl, hnil, hle⟩

theorem lookAhead : KeepsStep ending total (.ahead taken) (.meets · taken)
    (Option.map Relabelling.unchanged.item) (TokenMachine.look 0) (TokenMachine.look 0) where
  together parser plain := by
    rintro ⟨habreast, hle⟩
    refine (current_follows habreast).imp ?_ ?_
    · rintro item parser' _ ⟨rfl, habreast', hlook⟩
      exact ⟨habreast', hle, hlook⟩
    · rintro item _ ⟨rfl, rfl, hnil⟩
      exact ⟨by rw [hnil]; rfl, .inl hnil, hle⟩
  alone plain hstranded := by
    refine ⟨plain.items.head?, ?_, rfl, hstranded⟩
    rw [Relabelling.map_item_unchanged, List.head?_eq_getElem?]

theorem lookBehind {start : Item} (hkind : start.kind = .identifier) :
    KeepsStep ending total (.opens start taken) (fun _ => .ahead taken)
      (Option.map Relabelling.unchanged.item) (TokenMachine.look 1) (TokenMachine.look 1) where
  together parser plain := by
    rintro ⟨habreast, hle, hstart⟩
    refine Follows.of_ensures (Parser.look_abreast 1 habreast) (b := plain.items[1]?) rfl ?_ ?_
    · rintro item parser' ⟨rfl, habreast', -⟩
      exact ⟨(Relabelling.map_item_unchanged _).symm, habreast', hle⟩
    · -- the lexical error stands behind the name, so the name is all that is left
      intro hlt
      obtain ⟨rest, hitems⟩ := List.head?_eq_some_iff.1 hstart
      rw [hitems, List.length_cons] at hlt
      obtain rfl : rest = [] := List.length_eq_zero_iff.1 (by omega)
      exact ⟨none, by rw [hitems]; rfl, .inr ⟨start, hitems, hkind⟩, hle⟩
  alone plain hstranded := hstranded.elim

theorem takeAhead : KeepsStep ending total (.ahead taken)
    (fun item => item.elim (.sees none taken) fun _ => .settled (taken + 1))
    (Option.map Relabelling.unchanged.item) TokenMachine.take TokenMachine.take where
  together parser plain := by
    rintro ⟨habreast, hle⟩
    refine (take_follows habreast).imp ?_ ?_
    · rintro item parser' plain' ⟨hitems, habreast', hend⟩
      rw [hitems, List.length_append] at hle
      cases item with
      | none =>
          obtain ⟨hnil, hending⟩ := hend rfl
          exact ⟨habreast', by omega, by rw [hnil]; rfl, fun _ => hending⟩
      | some item =>
          rw [Option.toList_some, List.length_singleton] at hle
          exact ⟨habreast', by omega⟩
    · rintro item _ ⟨rfl, rfl, hnil⟩
      exact ⟨rfl, hnil, hle⟩
  alone plain := by
    obtain ⟨items, depth, maxDepth⟩ := plain
    rintro ⟨rfl | ⟨name, rfl, -⟩, hle⟩
    · exact ⟨none, rfl, rfl, rfl, hle⟩
    · rw [List.length_singleton, Nat.add_comm] at hle
      exact ⟨some name, (Relabelling.map_item_unchanged (some name)).symm, rfl,
        (Nat.zero_add _).trans_le hle⟩

theorem take : KeepsStep ending total (.settled taken)
    (fun item => item.elim (.sees none taken) fun _ => .clear (taken + 1))
    (Option.map Relabelling.unchanged.item) TokenMachine.take TokenMachine.take := by
  have hahead : KeepsStep ending total (.ahead taken) _ _ _ _ := takeAhead
  refine ⟨fun parser plain h => ?_, fun plain h => ?_⟩
  · refine (hahead.together parser plain h).imp (fun item _ _ => ?_) fun item _ => ?_
    all_goals cases item <;> exact id
  · refine (hahead.alone plain ⟨.inl h.1, h.2⟩).imp ?_ fun _ => id
    rintro _ plain' ⟨item, hitem, hafter⟩
    exact ⟨item, hitem, by cases item <;> exact hafter⟩

end KeepsStep

/-- Runs that keep in step. Both have enough fuel for the items that may still be taken. -/
def lazyWalk (ending : Option LexError) (total : Nat) :
    Walk .unchanged (Parser Lexer) Unbuffered where
  Goes _ before after image p q := KeepsStep ending total before after image p q
  Rooms room room' := room = room'
  Fuels taken fuel fuel' := total < taken + fuel ∧ total < taken + fuel'
  answer := by
    rintro α β room _ after image a _ rfl rfl
    exact ⟨fun parser plain h => ⟨rfl, h⟩, fun plain h => ⟨a, rfl, h⟩⟩
  bind h hf := h.bind hf
  strengthen himplies h := h.strengthen himplies
  weaken himplies h := h.weaken himplies
  look := .look
  lookAhead := .lookAhead
  lookBehind := .lookBehind
  take := .take
  takeAhead := .takeAhead
  rejectEnd := ⟨fun _ _ h => ⟨rfl, fun _ => h.2.2.2 rfl⟩, fun _ _ => rfl⟩
  reject _ := .reject fun _ hstranded => Option.some_ne_none _ hstranded.1
  rejectTarget := .reject fun _ hstranded => hstranded
  deeper h := h.deeper
  rooms_succ := room_inner
  tooDeep hroom := absurd hroom (Nat.zero_ne_add_one _)
  fuels_later hfuel := ⟨by omega, by omega⟩
  fuels_succ hfuel := ⟨by omega, by omega⟩
  unequal hfuel hzero _ := .overdrawn (by omega)
  exhausted hfuel _ := .overdrawn (by omega)

section Runs

variable {ending : Option LexError} {parser : Parser Lexer} {plain : Unbuffered} {fuel fuel' : Nat}

/-- A statement keeps in step. -/
theorem statementWith_follows (h : Abreast ending parser plain) (hfuel : plain.items.length < fuel)
    (hfuel' : plain.items.length < fuel') (room : Nat) :
    Follows ending id (fun _ => Abreast ending) (fun _ _ => True)
      (statementWith fuel room parser) (statementWith fuel' room plain) := by
  have hfuels : (lazyWalk ending plain.items.length).Fuels 0 fuel fuel' :=
    ⟨by omega, by omega⟩
  have hstep := Walk.statementWith hfuels (Eq.refl room) 0
  exact ((hstep.together parser plain ⟨h, Nat.le_refl _⟩).imp (fun _ _ _ hclear => hclear.1)
    fun _ _ _ => trivial).identity Relabelling.expr_unchanged

/-- A program keeps in step with statements that are read with enough fuel, and it is read only
    where no lexical error follows. -/
theorem program_follows_statements (h : Abreast ending parser plain)
    (hfuel : plain.items.length < fuel) {count : Nat} (hcount : plain.items.length < count) :
    Follows ending id (fun _ _ _ => ending = none) (fun _ _ => True) (program parser)
      ((do return ⟨← statementsWith fuel (TokenMachine.room plain) count⟩ :
        Parse Unbuffered Program) plain) := by
  have hbound : plain.items.length ≤ TokenMachine.bound parser := by
    obtain ⟨unread, hyields, rfl⟩ := h
    rw [List.length_append]
    exact Nat.add_le_add_left hyields.length_le _
  have hroom : TokenMachine.room parser = TokenMachine.room plain := by
    obtain ⟨unread, -, rfl⟩ := h
    rfl
  have hfuels {fuel : Nat} (hfuel : plain.items.length < fuel) :
      (lazyWalk ending plain.items.length).Fuels 0 (TokenMachine.bound parser + 1) fuel :=
    ⟨by omega, by omega⟩
  have hstep := Walk.statementsWith (hfuels hfuel) (Eq.refl (TokenMachine.room plain)) 0
    (hfuels hcount)
  rw [Parse.program_eq]
  simp only [sized, hroom]
  refine Follows.identity ?_ Relabelling.program_unchanged
  refine (hstep.together parser plain ⟨h, Nat.le_refl _⟩).bind (fun trees _ _ hended => ?_)
    fun trees plain' _ => ?_
  · exact ⟨rfl, hended⟩
  · exact ⟨⟨trees⟩, rfl, trivial⟩

/-- A program keeps in step, and it is read only where no lexical error follows. -/
theorem program_follows (h : Abreast ending parser plain) :
    Follows ending id (fun _ _ _ => ending = none) (fun _ _ => True) (program parser)
      (program plain) := by
  have hstatements := program_follows_statements h (Nat.lt_succ_self _) (Nat.lt_succ_self _)
  rw [Parse.program_eq (σ := Unbuffered)]
  exact hstatements

end Runs

/-! ## Whole sources -/

/-- A source that is not refused is read by a parser over its lexer. -/
theorem parseSource_of_build {limits : Limits} {maxBytes : Option Int} {source : Text}
    {lexer : Lexer} (maxDepth : Option Int)
    (hlexer : Lexer.build limits maxBytes source = .ok lexer) :
    parseSource limits maxBytes maxDepth source =
      (Parse.answer (program (Parser.build limits maxDepth lexer))).mapError Failure.source := by
  unfold parseSource
  simp only [hlexer]
  cases program (Parser.build limits maxDepth lexer) <;> rfl

theorem parseFeed_plain (limits : Limits) (maxDepth : Option Int) (items : List Item) :
    parseFeed limits maxDepth (Feed.ofItems items) = Parse.answer
      (program { items, maxDepth := maxDepth.getD limits.maxDepth : Unbuffered }) := by
  rw [← parseFeed_ofItems limits]
  cases maxDepth <;> rfl

/-- What the answers of a program have to do with each other that is read in step: they are the same
    if no error follows the items. Otherwise an item is blamed on both sides, or the lexical error
    takes the place of a success and of a complaint about the end. -/
theorem Follows.answers {α : Type} {ending : Option LexError} {out : α → Unbuffered → Prop}
    {r : EStateM.Result SourceError (Parser Lexer) α} {r' : EStateM.Result SourceError Unbuffered α}
    (h : Follows ending id (fun _ _ _ => ending = none) out r r') :
    (ending = none → Parse.answer r = Parse.answer r') ∧
    ∀ lexical, ending = some lexical →
      (∃ error, error.token ≠ none ∧ Parse.answer r' = .error (.syntactic error) ∧
        Parse.answer r = .error (.syntactic error)) ∨
      (((∃ value, Parse.answer r' = .ok value) ∨
          Parse.answer r' = .error (.syntactic .atEnd)) ∧
        Parse.answer r = .error (.lexical lexical)) := by
  cases r with
  | ok value parser =>
      cases r' with
      | error => exact h.elim
      | ok value' plain =>
          obtain ⟨rfl, hend⟩ := h
          exact ⟨fun _ => rfl, fun lexical hlexical => absurd (hend.symm.trans hlexical) nofun⟩
  | error error parser =>
      cases error with
      | syntactic error =>
          cases r' with
          | ok => exact h.elim
          | error error' plain =>
              obtain ⟨rfl, hend⟩ := h
              refine ⟨fun _ => rfl, fun lexical hlexical => .inl ⟨error, fun hnone => ?_, rfl, rfl⟩⟩
              exact absurd ((hend hnone).symm.trans hlexical) nofun
      | lexical lexical =>
          obtain ⟨hlexical, hplain⟩ := h
          refine ⟨fun hnone => absurd (hnone.symm.trans hlexical) nofun, fun other hother => ?_⟩
          obtain rfl := Option.some.inj (hlexical.symm.trans hother)
          refine .inr ⟨?_, rfl⟩
          cases r' with
          | ok value plain => exact .inl ⟨value, rfl⟩
          | error error plain =>
              obtain rfl : error = .syntactic .atEnd := hplain
              exact .inr rfl

/-- The parser over the lexer of a source keeps in step with the plain machine over its tokens. -/
theorem program_start_follows (limits : Limits) (maxDepth : Option Int) (source : Text) :
    Follows (Lexer.start source).drain.1.2 id
      (fun _ _ _ => (Lexer.start source).drain.1.2 = none) (fun _ _ => True)
      (program (Parser.build limits maxDepth (Lexer.start source)))
      (program { items := (Lexer.start source).drain.1.1,
                 maxDepth := maxDepth.getD limits.maxDepth : Unbuffered }) :=
  program_follows ⟨_, Lexer.Yields.start source, rfl⟩

/-- **Reading a source comes to what reading its tokens comes to.** If a lexical error ends the
    tokens, it is what is reported, unless the parser blames one of the tokens before it. -/
theorem parseSource_of_drain {limits : Limits} {maxBytes : Option Int} {source : Text}
    {lexer : Lexer} {tokens : List Item} {ending : Option LexError}
    (maxDepth : Option Int) (hlexer : Lexer.build limits maxBytes source = .ok lexer)
    (hdrain : lexer.drain.1 = (tokens, ending)) :
    let fromSource := parseSource limits maxBytes maxDepth source
    let fromTokens := parseFeed limits maxDepth (Feed.ofItems (tokens))
    (ending = none → fromSource = fromTokens.mapError Failure.source) ∧
    ∀ lexical, ending = some lexical →
      (∃ error, error.token ≠ none ∧ fromTokens = .error (.syntactic error) ∧
        fromSource = .error (.source (.syntactic error))) ∨
      (((∃ program, fromTokens = .ok program) ∨ fromTokens = .error (.syntactic .atEnd)) ∧
        fromSource = .error (.source (.lexical lexical))) := by
  intro fromSource fromTokens
  have hsource : fromSource = _ := parseSource_of_build maxDepth hlexer
  have htokens : fromTokens = _ := parseFeed_plain limits maxDepth _
  obtain rfl := Lexer.build_eq_ok hlexer
  have hfollows := program_start_follows limits maxDepth source
  rw [hdrain] at hfollows
  obtain ⟨hsame, hcut⟩ := hfollows.answers
  rw [hsource, htokens]
  refine ⟨fun hnone => congrArg _ (hsame hnone), fun lexical hlexical => ?_⟩
  rcases hcut lexical hlexical with ⟨error, hitem, hplain, hparser⟩ | ⟨hplain, hparser⟩
  · exact .inl ⟨error, hitem, hplain, congrArg _ hparser⟩
  · exact .inr ⟨hplain, congrArg _ hparser⟩

/-- The tokens of `x=1+#;` end too early, and before that is noticed the `#` is met. -/
theorem parseSource_before_hash : parseSource {} none none "x=1+#;".toList =
    .error (.source (.lexical ⟨.unexpectedCharacter, ['#'], some ⟨4, 5⟩⟩)) := by
  have hdrain : (Lexer.start "x=1+#;".toList).drain.1 =
      ([⟨⟨.identifier, .text ['x']⟩, ⟨0, 1⟩⟩, ⟨⟨.equals, .none⟩, ⟨1, 2⟩⟩,
        ⟨⟨.integer, .integer 1⟩, ⟨2, 3⟩⟩, ⟨⟨.plus, .none⟩, ⟨3, 4⟩⟩],
        some ⟨.unexpectedCharacter, ['#'], some ⟨4, 5⟩⟩) := by rfl
  obtain ⟨-, hcut⟩ := @parseSource_of_drain {} none "x=1+#;".toList _ _ _ none rfl hdrain
  rcases hcut _ rfl with ⟨error, hitem, htokens, -⟩ | ⟨-, hsource⟩
  · have hend : SourceError.syntactic .atEnd = .syntactic error := Except.error.inj htokens
    obtain rfl := SourceError.syntactic.inj hend
    exact absurd rfl hitem
  · exact hsource

end ScriptFront
