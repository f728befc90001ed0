import ScriptFront.Proofs.Lexer.Operations
import ScriptFront.Proofs.Parser.Buffering
import ScriptFront.Proofs.Parser.Watching

set_option autoImplicit false

/-! # How far a parser looks

A parser asks for an item only when it has to look at it. So at every moment there is at most one
item in its buffer, but for the name at the start of an `assign`, behind which a second one is
looked at (`Moment.Sparing`); behind a statement there is none. And when it complains of a token,
the item that stopped it is the last one that was asked for, and the only one in the buffer
(`Moment.Halted`). What is known of a moment depends on the phase it belongs to (`Moment.At`); the
steps of a watched parser keep to that (`Attends`), and so it does on its whole way through the
grammar (`Attends.walk`), over whatever gives its items in order, prepared items and lexers alike
(`Delivery`). -/

namespace ScriptFront

open Run Parse

variable {ι α β : Type}

/-! ## Deliveries -/

/-- The items that a supply gives, in their order, and what is known of the supply when a number of
    them have been given. -/
structure Delivery (ι : Type) [Supply ι] where
  items : List Item
  given : Nat → ι → Prop
  next : ∀ count supply, given count supply →
    match Supply.next supply with
    | .ok (some item) supply' => items[count]? = some item ∧ given (count + 1) supply'
    | .ok none supply' => given count supply'
    | .error _ supply' => given count supply'

/-- Prepared items are given one after another. -/
def Delivery.feed (items : List Item) : Delivery Feed where
  items
  given count supply := supply = Feed.ofItems (items.drop count)
  next := by
    rintro count _ rfl
    cases hdrop : items.drop count with
    | nil => rfl
    | cons item rest =>
        refine ⟨?_, ?_⟩
        · rw [← List.head?_drop, hdrop, List.head?_cons]
        · rw [← List.tail_drop, hdrop, List.tail_cons]
          rfl

/-- A lexer gives its tokens, and counts them. -/
def Delivery.lexer (lexer : Lexer) : Delivery Lexer where
  items := lexer.drain.1.1
  given count lexer' := lexer'.emitted = lexer.emitted + count ∧
    lexer'.drain.1.1 = lexer.drain.1.1.drop count
  next := by
    rintro count lexer' ⟨hcount, hdrain⟩
    have htoken := lexer'.nextToken_drain
    cases hrun : lexer'.nextToken with
    | error error lexer'' =>
        have hnext : Supply.next lexer' = .error error lexer'' := hrun
        rw [hrun] at htoken
        rw [hnext]
        exact ⟨htoken.1.trans hcount, htoken.2.trans hdrain⟩
    | ok token lexer'' =>
        have hnext : Supply.next lexer' = .ok token lexer'' := hrun
        rw [hrun] at htoken
        rw [hnext]
        cases token with
        | none => exact ⟨htoken.1.trans hcount, htoken.2.trans hdrain⟩
        | some token =>
            obtain ⟨hemitted, hfirst⟩ := htoken
            have hdrop := hdrain.symm.trans hfirst
            refine ⟨?_, ?_, ?_⟩
            · rw [← List.head?_drop, hdrop]
              rfl
            · rw [hemitted, hcount, Nat.add_assoc]
            · rw [← List.tail_drop, hdrop, List.tail_cons]

/-! ## What holds at every moment -/

/-- The item that a complaint is due to: for a bad target the `=` behind it, and otherwise the item
    that is blamed. -/
inductive SyntaxError.DueTo : SyntaxError → Item → Prop
  | badTarget (start : Item) {item : Item} : item.kind = .equals →
      DueTo (.blaming (some start) .badTarget) item
  | blamed {item : Item} {complaint : Complaint} : complaint ≠ .badTarget →
      DueTo (.blaming (some item) complaint) item

theorem SyntaxError.DueTo.kind_of_badTarget {error : SyntaxError} {item : Item}
    (h : error.DueTo item) (htarget : error.complaint = .badTarget) : item.kind = .equals := by
  cases h with
  | badTarget _ hkind => exact hkind
  | blamed hcomplaint => exact absurd htarget hcomplaint

namespace Moment

variable {moment : Moment ι}

/-- At most one item is in the buffer. -/
def Few (moment : Moment ι) : Prop := moment.parser.lookahead.length ≤ 1

/-- Two items are in the buffer only if the first of them is a name at the start of a level. -/
structure Sparing (moment : Moment ι) : Prop where
  atMostTwo : moment.parser.lookahead.length ≤ 2
  name : moment.parser.lookahead.length = 2 →
    moment.parser.lookahead.head?.map Item.kind = some .identifier ∧
      moment.opened.head? = some moment.taken

theorem few_of_nil (h : moment.parser.lookahead = []) : moment.Few := by
  show moment.parser.lookahead.length ≤ 1
  rw [h]
  exact Nat.zero_le 1

theorem Few.sparing (h : moment.Few) : moment.Sparing where
  atMostTwo := Nat.le_succ_of_le h
  name htwo := absurd (htwo ▸ h : 2 ≤ 1) (by decide)

/-- Asking in vain does not change the buffer. -/
theorem Few.asked (h : moment.Few) (supply : ι) : (moment.asked supply).Few := h

/-- When the first item has been taken, there is none left. -/
theorem Few.popped (h : moment.Few) {item : Item} {rest : List Item}
    (hbuffer : moment.parser.lookahead = item :: rest) :
    (moment.popped rest).parser.lookahead = [] := by
  have hle : moment.parser.lookahead.length ≤ 1 := h
  rw [hbuffer, List.length_cons] at hle
  exact List.eq_nil_of_length_eq_zero (Nat.le_zero.1 (Nat.le_of_succ_le_succ hle))

/-- When the first item has been taken, there is no more than one left. -/
theorem Sparing.popped (h : moment.Sparing) {item : Item} {rest : List Item}
    (hbuffer : moment.parser.lookahead = item :: rest) : (moment.popped rest).Few := by
  have hle := h.atMostTwo
  rw [hbuffer, List.length_cons] at hle
  exact Nat.le_of_succ_le_succ hle

theorem Few.eq_singleton (h : moment.Few) {item : Item}
    (hitem : moment.parser.lookahead.head? = some item) : moment.parser.lookahead = [item] := by
  obtain ⟨rest, hbuffer⟩ := List.head?_eq_some_iff.1 hitem
  obtain rfl : rest = [] := h.popped hbuffer
  exact hbuffer

/-- A level has just been opened, and its first item is alone in the buffer. -/
structure Starts (start : Item) (moment : Moment ι) : Prop where
  buffer : moment.parser.lookahead = [start]
  opened : moment.opened.head? = some moment.taken

theorem Starts.few {start : Item} (h : moment.Starts start) : moment.Few := by
  show moment.parser.lookahead.length ≤ 1
  rw [h.buffer]
  exact Nat.le_refl 1

/-- Something else than a name is alone in the buffer. -/
theorem Sparing.few_of_kind (h : moment.Sparing) {item : Item}
    (hitem : moment.parser.lookahead.head? = some item) (hkind : item.kind ≠ .identifier) :
    moment.Few := by
  have htwo : moment.parser.lookahead.length ≠ 2 := by
    intro htwo
    have hname := (h.name htwo).1
    rw [hitem] at hname
    exact hkind (Option.some.inj hname)
  have hle := h.atMostTwo
  show moment.parser.lookahead.length ≤ 1
  omega

/-- What is known of a moment in a phase. -/
def At : Phase → Moment ι → Prop
  | .clear _, moment => moment.parser.lookahead = []
  | .settled _, moment | .ended, moment => moment.Few
  | .ahead _, moment => moment.Sparing
  | .sees item _, moment => moment.parser.lookahead.head? = item ∧ moment.Few
  | .meets item _, moment => moment.parser.lookahead.head? = item ∧ moment.Sparing
  | .stands kinds _, moment =>
    ∃ item, moment.parser.lookahead.head? = some item ∧ item.kind ∈ kinds ∧ moment.Few
  | .opens start _, moment => moment.Starts start

theorem At.of_implies {phase phase' : Phase} (h : phase.Implies phase') (hat : moment.At phase) :
    moment.At phase' := by
  cases h with
  | clear => exact few_of_nil hat
  | settled => exact Few.sparing hat
  | later => exact hat
  | sees => exact hat.2
  | meets => exact hat.2
  | atEnd => exact ⟨hat.1, few_of_nil (List.head?_eq_none_iff.1 hat.1)⟩
  | noName hkind => exact ⟨hat.1, hat.2.few_of_kind hat.1 hkind⟩
  | stands hkind => exact ⟨_, hat.1, hkind, hat.2⟩
  | opens => exact Starts.few hat
  | ended => exact hat.2

/-- The run has ended with an error. If a token is blamed, the item that this is due to is the only
    one in the buffer. -/
structure Halted (error : SourceError) (moment : Moment ι) : Prop where
  few : moment.Few
  dueTo : ∀ complaint, error = .syntactic complaint → complaint.token ≠ none →
    ∃ item, moment.parser.lookahead = [item] ∧ complaint.DueTo item

namespace Halted

variable {item : Item} {complaint : Complaint}

theorem lexical (h : moment.Few) (error : LexError) : moment.Halted (.lexical error) where
  few := h
  dueTo := by
    rintro _ ⟨⟩

theorem atEnd (h : moment.Few) : moment.Halted (.syntactic (.blaming none complaint)) where
  few := h
  dueTo := by
    rintro _ ⟨⟩ htoken
    exact absurd rfl htoken

theorem blamed (h : moment.Few) (hitem : moment.parser.lookahead.head? = some item)
    (hcomplaint : complaint ≠ .badTarget) :
    moment.Halted (.syntactic (.blaming (some item) complaint)) where
  few := h
  dueTo := by
    rintro _ ⟨⟩ -
    exact ⟨item, h.eq_singleton hitem, .blamed hcomplaint⟩

theorem badTarget (h : moment.Few) {start : Item}
    (hitem : moment.parser.lookahead.head? = some item) (hkind : item.kind = .equals) :
    moment.Halted (.syntactic (.blaming (some start) .badTarget)) where
  few := h
  dueTo := by
    rintro _ ⟨⟩ -
    exact ⟨item, h.eq_singleton hitem, .badTarget start hkind⟩

end Halted

variable [Supply ι] {delivery : Delivery ι}

/-- The buffer and the supply are where they should be: the items that were given and not taken are
    in the buffer, and the open levels are those that the parser counts. -/
structure Tracks (delivery : Delivery ι) (moment : Moment ι) : Prop where
  buffered : ∀ (place : Nat) (item : Item), moment.parser.lookahead[place]? = some item →
    delivery.items[moment.taken + place]? = some item
  given : delivery.given (moment.taken + moment.parser.lookahead.length) moment.parser.supply
  levels : moment.opened.length = moment.parser.depth

namespace Tracks

theorem fed (h : moment.Tracks delivery) {item : Item} {supply : ι}
    (hitem : delivery.items[moment.taken + moment.parser.lookahead.length]? = some item)
    (hgiven : delivery.given (moment.taken + moment.parser.lookahead.length + 1) supply) :
    (moment.fed item supply).Tracks delivery where
  buffered place item' hplace := by
    have hsplit : (moment.parser.lookahead ++ [item])[place]? = some item' := hplace
    obtain hlt | rfl | hgt := Nat.lt_trichotomy place moment.parser.lookahead.length
    · rw [List.getElem?_append_left hlt] at hsplit
      exact h.buffered place item' hsplit
    · rw [List.getElem?_concat_length] at hsplit
      obtain rfl := Option.some.inj hsplit
      exact hitem
    · rw [List.getElem?_eq_none (by rw [List.length_append]; exact hgt)] at hsplit
      exact absurd hsplit (by simp)
  given := by
    show delivery.given (moment.taken + (moment.parser.lookahead ++ [item]).length) supply
    rw [List.length_append, ← Nat.add_assoc]
    exact hgiven
  levels := h.levels

theorem popped (h : moment.Tracks delivery) {item : Item} {rest : List Item}
    (hbuffer : moment.parser.lookahead = item :: rest) : (moment.popped rest).Tracks delivery where
  buffered place item' hplace := by
    have hnext := h.buffered (place + 1) item'
    rw [hbuffer, List.getElem?_cons_succ] at hnext
    show delivery.items[moment.taken + 1 + place]? = some item'
    rw [Nat.add_assoc, Nat.add_comm 1]
    exact hnext hplace
  given := by
    have hgiven := h.given
    rw [hbuffer, List.length_cons] at hgiven
    show delivery.given (moment.taken + 1 + rest.length) moment.parser.supply
    rw [Nat.add_assoc, Nat.add_comm 1]
    exact hgiven
  levels := h.levels

theorem entered (h : moment.Tracks delivery) : moment.entered.Tracks delivery where
  buffered := h.buffered
  given := h.given
  levels := congrArg (· + 1) h.levels

theorem left (h : moment.Tracks delivery) : moment.left.Tracks delivery where
  buffered := h.buffered
  given := h.given
  levels := by
    show moment.opened.tail.length = moment.parser.depth - 1
    rw [List.length_tail, h.levels]

end Tracks

/-- A moment at which everything is as it should be. -/
def Sound (delivery : Delivery ι) (moment : Moment ι) : Prop :=
  moment.Tracks delivery ∧ moment.Sparing

end Moment

/-! ## Operations that attend to the delivery -/

section Attention

variable [Supply ι] (delivery : Delivery ι)

/-- Everything was as it should be at all moments up to now. -/
def Watched.Sound (watched : Watched ι) : Prop := ∀ moment ∈ watched.moments, moment.Sound delivery

/-- A run has passed through nothing but sound moments, and ends as described if it answers. -/
def EndsSound (after : α → Moment ι → Prop) : EStateM.Result SourceError (Watched ι) α → Prop
  | .ok a watched => watched.Sound delivery ∧ after a watched.now
  | .error error watched => watched.Sound delivery ∧ watched.now.Halted error

/-- An operation that starts at a moment of some kind passes through nothing but sound moments. -/
def Attends (before : Moment ι → Prop) (after : α → Moment ι → Prop) (p : Parse (Watched ι) α) :
    Prop :=
  ∀ watched, watched.Sound delivery → before watched.now → EndsSound delivery after (p watched)

end Attention

theorem Watched.Sound.now [Supply ι] {delivery : Delivery ι} {watched : Watched ι}
    (h : watched.Sound delivery) : watched.now.Sound delivery :=
  h watched.now List.mem_cons_self

theorem Watched.Sound.pass [Supply ι] {delivery : Delivery ι} {watched : Watched ι}
    {moment : Moment ι} (h : watched.Sound delivery) (hmoment : moment.Sound delivery) :
    (watched.pass moment).Sound delivery := by
  intro moment' hmem
  obtain rfl | hmem := List.mem_cons.1 hmem
  · exact hmoment
  · exact h moment' hmem

namespace Attends

variable [Supply ι] {delivery : Delivery ι} {before : Moment ι → Prop}
  {after : α → Moment ι → Prop}

theorem pure (a : α) (h : ∀ moment, before moment → after a moment) :
    Attends delivery before after (Pure.pure a) :=
  fun watched hsound hbefore => ⟨hsound, h watched.now hbefore⟩

theorem reject {item : Option Item} {complaint : Complaint}
    (h : ∀ moment, before moment → moment.Halted (.syntactic (.blaming item complaint))) :
    Attends delivery before after (Parse.reject item complaint) :=
  fun watched hsound hbefore => ⟨hsound, h watched.now hbefore⟩

theorem bind {middle : α → Moment ι → Prop} {after : β → Moment ι → Prop}
    {p : Parse (Watched ι) α} {f : α → Parse (Watched ι) β} (hp : Attends delivery before middle p)
    (hf : ∀ a, Attends delivery (middle a) after (f a)) :
    Attends delivery before after (p >>= f) := by
  intro watched hsound hbefore
  have hends := hp watched hsound hbefore
  cases hrun : p watched with
  | ok a watched' =>
      rw [hrun] at hends
      rw [bind_of_ok hrun]
      exact hf a watched' hends.1 hends.2
  | error error watched' =>
      rw [hrun] at hends
      rw [bind_of_error hrun]
      exact hends

theorem mono {before' : Moment ι → Prop} {after' : α → Moment ι → Prop} {p : Parse (Watched ι) α}
    (h : Attends delivery before after p) (hbefore : ∀ moment, before' moment → before moment)
    (hafter : ∀ a moment, after a moment → after' a moment) :
    Attends delivery before' after' p := by
  intro watched hsound hstart
  have hends := h watched hsound (hbefore _ hstart)
  cases hrun : p watched with
  | ok a watched' => rw [hrun] at hends; exact ⟨hends.1, hafter a _ hends.2⟩
  | error error watched' => rw [hrun] at hends; exact hends

/-- A bad target is blamed when the `=` behind it is in the buffer. -/
theorem rejectTarget {start : Item} {taken : Nat} :
    Attends delivery (Moment.At (.stands [.equals] taken)) after
      (Parse.reject (some start) .badTarget) := by
  refine reject fun moment hstands => ?_
  obtain ⟨item, hitem, hkind, hfew⟩ := hstands
  exact .badTarget hfew hitem (List.mem_singleton.1 hkind)

/-! ### The small operations -/

/-- One item is asked for while there is at most one in the buffer. -/
theorem pull_one {after : Moment ι → Prop} {watched : Watched ι} (hsound : watched.Sound delivery)
    (hfew : watched.now.Few) (hasked : ∀ supply, after (watched.now.asked supply))
    (hfed : ∀ item supply, (watched.now.fed item supply).Sparing ∧
      after (watched.now.fed item supply)) :
    EndsSound delivery (fun _ => after) (Watched.pull 1 watched) := by
  have htracks := hsound.now.1
  have hnext := delivery.next _ _ htracks.given
  have hdry (supply : ι) (hgiven : delivery.given
      (watched.now.taken + watched.now.parser.lookahead.length) supply) :
      (watched.pass (watched.now.asked supply)).Sound delivery :=
    hsound.pass ⟨{ buffered := htracks.buffered, given := hgiven, levels := htracks.levels },
      (hfew.asked supply).sparing⟩
  unfold Watched.pull
  cases hrun : Supply.next watched.now.parser.supply with
  | error error supply =>
      rw [hrun] at hnext
      exact ⟨hdry supply hnext, .lexical (hfew.asked supply) error⟩
  | ok item supply =>
      rw [hrun] at hnext
      cases item with
      | none => exact ⟨hdry supply hnext, hasked supply⟩
      | some item =>
          obtain ⟨hsparing, hafter⟩ := hfed item supply
          exact ⟨hsound.pass ⟨htracks.fed hnext.1 hnext.2, hsparing⟩, hafter⟩

/-- What holds whenever there is at most one item in the buffer is not lost by looking at the next
    item. -/
theorem fill_one (hfew : ∀ moment, moment.Few → before moment) :
    Attends delivery before (fun _ => before) (Watched.fill 1) := by
  intro watched hsound hbefore
  show EndsSound delivery _ (Watched.pull (1 - watched.now.parser.lookahead.length) watched)
  cases hbuffer : watched.now.parser.lookahead with
  | nil =>
      have hone (item : Item) (supply : ι) : (watched.now.fed item supply).Few := by
        show (watched.now.parser.lookahead ++ [item]).length ≤ 1
        rw [hbuffer]
        exact Nat.le_refl 1
      have hnone : watched.now.Few := Moment.few_of_nil hbuffer
      exact pull_one hsound hnone (fun _ => hfew _ hnone)
        fun item supply => ⟨(hone item supply).sparing, hfew _ (hone item supply)⟩
  | cons item rest =>
      rw [List.length_cons, Nat.sub_eq_zero_of_le (Nat.le_add_left 1 rest.length)]
      exact ⟨hsound, hbefore⟩

theorem current (hfew : ∀ moment, moment.Few → before moment) :
    Attends delivery before
      (fun item moment => moment.parser.lookahead.head? = item ∧ before moment) Parse.current :=
  (fill_one hfew).bind fun _ _ hsound hbefore => ⟨hsound, List.head?_eq_getElem?, hbefore⟩

/-- If there is no item to be taken, there is none in the buffer. -/
theorem take {phase phase' : Phase} {taken : Nat} (hfew : ∀ moment : Moment ι, moment.Few →
    moment.At phase) (hpopped : ∀ (moment : Moment ι) item rest, moment.At phase →
      moment.parser.lookahead = item :: rest → (moment.popped rest).At phase')
    (hone : ∀ moment : Moment ι, moment.At phase' → moment.Few) :
    Attends delivery (Moment.At phase)
      (fun item => Moment.At (item.elim (.sees none taken) fun _ => phase')) TokenMachine.take := by
  refine (fill_one hfew).bind fun _ watched hsound hat => ?_
  unfold Watched.pop
  cases hbuffer : watched.now.parser.lookahead with
  | nil => exact ⟨hsound, List.head?_eq_none_iff.2 hbuffer, Moment.few_of_nil hbuffer⟩
  | cons item rest =>
      have hafter := hpopped _ _ _ hat hbuffer
      exact ⟨hsound.pass ⟨hsound.now.1.popped hbuffer, (hone _ hafter).sparing⟩, hafter⟩

/-- Behind the name at the start of a level a second item is looked at. -/
theorem following {start : Item} (hkind : start.kind = .identifier) :
    Attends delivery (Moment.Starts start) (fun _ => Moment.Sparing)
      (TokenMachine.look 1) := by
  have hfill : Attends delivery (Moment.Starts start) (fun _ => Moment.Sparing)
      (Watched.fill 2) := by
    intro watched hsound hstarts
    show EndsSound delivery _ (Watched.pull (2 - watched.now.parser.lookahead.length) watched)
    rw [hstarts.buffer]
    have hfew := hstarts.few
    refine pull_one hsound hfew (fun supply => (hfew.asked supply).sparing) fun item supply => ?_
    have hbuffer : (watched.now.fed item supply).parser.lookahead = [start, item] :=
      congrArg (· ++ [item]) hstarts.buffer
    have hsparing : (watched.now.fed item supply).Sparing := by
      refine ⟨by rw [hbuffer]; exact Nat.le_refl 2, fun _ => ⟨?_, hstarts.opened⟩⟩
      rw [hbuffer]
      exact congrArg some hkind
    exact ⟨hsparing, hsparing⟩
  exact hfill.bind fun _ _ hsound hsparing => ⟨hsound, hsparing⟩

/-- A level is opened before the one item in the buffer, and closed when no more than one is
    there. -/
theorem deeper {start : Item} {p : Parse (Watched ι) α}
    (h : Attends delivery (Moment.Starts start) (fun _ => Moment.Few) p) :
    Attends delivery (fun moment => moment.parser.lookahead.head? = some start ∧ moment.Few)
      (fun _ => Moment.Few) (Parse.deeper p) := by
  rintro watched hsound ⟨hstart, hfew⟩
  have hentered : Watched.Sound delivery (TokenMachine.enter watched) :=
    hsound.pass ⟨hsound.now.1.entered, Moment.Few.sparing hfew⟩
  have hleft {watched : Watched ι} (hsound : watched.Sound delivery) (hfew : watched.now.Few) :
      Watched.Sound delivery (TokenMachine.leave watched) :=
    hsound.pass ⟨hsound.now.1.left, Moment.Few.sparing hfew⟩
  have hends := h _ hentered ⟨hfew.eq_singleton hstart, rfl⟩
  unfold Parse.deeper
  cases hrun : p (TokenMachine.enter watched) with
  | ok a watched' =>
      rw [hrun] at hends
      exact ⟨hleft hends.1 hends.2, hends.2⟩
  | error error watched' =>
      rw [hrun] at hends
      exact ⟨hleft hends.1 hends.2.few, hends.2.few, hends.2.dueTo⟩

/-! ### The grammar -/

/-- What attends to the delivery step by step does so on its way through the grammar. -/
def walk (delivery : Delivery ι) : Walk .unchanged (Watched ι) (Watched ι) where
  Goes _ before after _ p _ := Attends delivery (Moment.At before) (fun a => Moment.At (after a)) p
  Rooms room room' := room = room'
  Fuels _ fuel fuel' := fuel = fuel'
  answer _ hphase := .pure _ fun _ hat => hphase ▸ hat
  bind hp hf := hp.bind hf
  strengthen himplies h := h.mono (fun _ => .of_implies himplies) fun _ _ => id
  weaken himplies h := h.mono (fun _ => id) fun a _ => .of_implies (himplies a)
  look := current fun _ => id
  lookAhead := current fun _ => Moment.Few.sparing
  lookBehind hkind := following hkind
  take := .take (fun _ => id) (fun _ _ _ hat hbuffer => Moment.Few.popped hat hbuffer)
    fun _ => Moment.few_of_nil
  takeAhead := .take (fun _ => Moment.Few.sparing)
    (fun _ _ _ hat hbuffer => Moment.Sparing.popped hat hbuffer) fun _ => id
  rejectEnd := .reject fun _ h => .atEnd h.2
  reject hcomplaint := .reject fun _ h => .blamed h.2 h.1 hcomplaint
  rejectTarget := .rejectTarget
  deeper h := h.deeper
  rooms_succ := room_inner
  tooDeep hroom := absurd hroom (Nat.zero_ne_add_one _)
  fuels_later hfuel := hfuel
  fuels_succ hfuel := Nat.succ.inj hfuel
  unequal hfuel _ hne := absurd hfuel hne
  exhausted _ _ := .pure _ fun _ => id

/-- Behind a statement there is nothing in the buffer. -/
theorem statement : Attends delivery Moment.Few
    (fun _ moment => moment.parser.lookahead = []) Parse.statement :=
  fun watched => Walk.statementWith (w := walk delivery) rfl rfl 0 watched

theorem program : Attends delivery Moment.Few (fun _ => Moment.Few) Parse.program := by
  have hsized : Attends delivery Moment.Few (fun _ => Moment.Few)
      (sized fun fuel room => Parse.statementsWith fuel room fuel) :=
    fun watched => Walk.statementsWith (w := walk delivery) rfl rfl 0 rfl watched
  exact hsized.bind fun trees => pure _ fun _ => id

end Attends

/-! ## Whole inputs -/

/-- A parser that reads a program never looks further than it has to. -/
structure Restrained [Supply ι] (delivery : Delivery ι) (parser : Parser ι) : Prop where
  /-- Watching the parser changes nothing. -/
  watched : mapState (·.now.parser) (program parser.watched) = program parser
  /-- At every moment the record is true of the parser, there are at most two items in the buffer,
      and two only if the first of them is a name at the start of a level. -/
  moments : ∀ moment ∈ (outcome (program parser.watched)).2.moments,
    moment.Tracks delivery ∧ moment.Sparing
  /-- When a token is blamed, the item that this is due to is the last one that was given, and the
      only one in the buffer. -/
  stopped : ∀ (error : SyntaxError) (parser' : Parser ι),
    program parser = .error (.syntactic error) parser' → error.token ≠ none →
    ∃ (place : Nat) (item : Item), delivery.items[place]? = some item ∧ error.DueTo item ∧
      delivery.given (place + 1) parser'.supply ∧ parser'.lookahead = [item]

theorem Delivery.sound_start [Supply ι] (delivery : Delivery ι) {parser : Parser ι}
    (hgiven : delivery.given 0 parser.supply) (hbuffer : parser.lookahead = [])
    (hdepth : parser.depth = 0) : parser.watched.Sound delivery := by
  intro moment hmem
  obtain rfl := List.mem_singleton.1 hmem
  refine ⟨⟨fun place item hitem => ?_, ?_, hdepth.symm⟩, (Moment.few_of_nil hbuffer).sparing⟩
  · have hnone : parser.lookahead[place]? = some item := hitem
    rw [hbuffer] at hnone
    exact absurd hnone (by simp)
  · show delivery.given (0 + parser.lookahead.length) parser.supply
    rw [hbuffer]
    exact hgiven

/-- A statement leaves nothing in the buffer. -/
theorem Delivery.lookahead_of_statement [Supply ι] (delivery : Delivery ι)
    {parser parser' : Parser ι} {tree : Expr} (hgiven : delivery.given 0 parser.supply)
    (hbuffer : parser.lookahead = []) (hdepth : parser.depth = 0)
    (hrun : Parse.statement parser = .ok tree parser') : parser'.lookahead = [] := by
  have hends := Attends.statement parser.watched
    (delivery.sound_start hgiven hbuffer hdepth) (Moment.few_of_nil hbuffer)
  have hsame := Watched.mapState_eq Watched.simulation.statement Relabelling.expr_unchanged parser
  rw [hrun] at hsame
  cases hwatched : Parse.statement parser.watched with
  | ok tree' watched =>
      rw [hwatched] at hsame hends
      obtain ⟨-, rfl⟩ := EStateM.Result.ok.inj hsame
      exact hends.2
  | error error watched => rw [hwatched] at hsame; exact absurd hsame nofun

theorem Delivery.restrained [Supply ι] (delivery : Delivery ι) {parser : Parser ι}
    (hgiven : delivery.given 0 parser.supply) (hbuffer : parser.lookahead = [])
    (hdepth : parser.depth = 0) : Restrained delivery parser := by
  have hsound := delivery.sound_start hgiven hbuffer hdepth
  have hends := Attends.program parser.watched hsound (Moment.few_of_nil hbuffer)
  have hsame := parser.program_watched
  refine ⟨hsame, ?_, ?_⟩
  · cases hrun : program parser.watched with
    | ok program watched => rw [hrun] at hends; exact hends.1
    | error error watched => rw [hrun] at hends; exact hends.1
  · intro error parser' hparser htoken
    rw [hparser] at hsame
    cases hrun : program parser.watched with
    | ok program watched => rw [hrun] at hsame; exact absurd hsame nofun
    | error error' watched =>
        rw [hrun] at hsame hends
        obtain ⟨rfl, rfl⟩ := EStateM.Result.error.inj hsame
        obtain ⟨hsound', hhalted⟩ := hends
        obtain ⟨item, hitem, hdue⟩ := hhalted.dueTo error rfl htoken
        have htracks := hsound'.now.1
        have hgiven' := htracks.given
        rw [hitem] at hgiven'
        exact ⟨watched.now.taken, item, htracks.buffered 0 item (by rw [hitem]; rfl), hdue,
          hgiven', hitem⟩

/-- **A parser never reads past the token that it rejects.** Over prepared items and over a lexer
    alike, at every moment there are at most two items in the buffer, and two only if the first of
    them is a name at the start of an `assign` level. When a token is blamed, no item behind the one
    that stopped the parser has been asked for, and this item is the only one in the buffer. -/
theorem program_restrained (limits : Limits) (maxDepth : Option Int) :
    (∀ items : List Item,
      Restrained (.feed items) (Parser.build limits maxDepth (Feed.ofItems items))) ∧
    (∀ lexer : Lexer, Restrained (.lexer lexer) (Parser.build limits maxDepth lexer)) :=
  ⟨fun items => (Delivery.feed items).restrained rfl rfl rfl,
    fun lexer => (Delivery.lexer lexer).restrained ⟨rfl, rfl⟩ rfl rfl⟩

/-- A sum before `=` is rejected at the `=`, with the character behind it not yet met. -/
theorem program_restrained_sum_before_equals :
    let lexer := Lexer.start "x + 1 = @".toList
    let name : Item := ⟨⟨.identifier, .text ['x']⟩, ⟨0, 1⟩⟩
    ∃ parser', program (Parser.build {} none lexer) =
        .error (.syntactic (.blaming (some name) .badTarget)) parser' ∧
      ∃ (place : Nat) (item : Item), parser'.lookahead = [item] ∧ item.kind = .equals ∧
        (Delivery.lexer lexer).items[place]? = some item ∧
        parser'.supply.emitted = place + 1 := by
  intro lexer name
  have hanswer : answer (program (Parser.build {} none lexer)) =
      .error (.syntactic (.blaming (some name) .badTarget)) := by decide +kernel
  cases hrun : program (Parser.build {} none lexer) with
  | ok program parser' => rw [hrun] at hanswer; exact absurd hanswer nofun
  | error error parser' =>
      rw [hrun] at hanswer
      obtain rfl := Except.error.inj hanswer
      obtain ⟨place, item, hplace, hdue, hgiven, hbuffer⟩ :=
        ((program_restrained {} none).2 lexer).stopped _ parser' hrun nofun
      have hcount : parser'.supply.emitted = 0 + (place + 1) := hgiven.1
      rw [Nat.zero_add] at hcount
      exact ⟨parser', rfl, place, item, hbuffer, hdue.kind_of_badTarget rfl, hplace, hcount⟩

end ScriptFront
