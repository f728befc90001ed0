import ScriptFront.Proofs.Parser.Acceptance
import ScriptFront.Proofs.Parser.Concatenation

set_option autoImplicit false

/-! # The parser decides on kinds alone

What names and integers carry and where tokens stand goes into trees and errors and decides nothing:
relabelled items give the relabelled answer. So the answer to some tokens can be found without
knowing any of this (`Relabelling.numbered`), by reading the same tokens with their places in the
list for names, values and spans, and then putting in what stands at these places. Tokens that
differ in nothing else are answered with trees of the same shape, or with the same complaint about
the token at the same place. -/

namespace ScriptFront

open Grammar Run Parse

/-! ## The item that is blamed -/

/-- An error that blames the input is made from the item at some place, or from none behind the
    last one. -/
theorem Grammar.Blames.exists_place {items : List Item} {limit : Nat} {error : SyntaxError}
    (h : Blames items limit error) :
    ∃ place : Nat, error = .blaming items[place]? error.complaint := by
  have hnamed {place : Nat} {item : Item} (hitem : items[place]? = some item)
      (hnames : Names error item) : error = .blaming items[place]? error.complaint := by
    obtain ⟨token, span, complaint⟩ := error
    obtain ⟨rfl, rfl⟩ : token = some item.token ∧ span = some item.span := hnames
    rw [hitem]
    rfl
  unfold Blames at h
  split at h
  case h_1 hcomplaint =>
    obtain ⟨htoken, hspan, -, -⟩ := h
    obtain ⟨token, span, complaint⟩ := error
    obtain rfl : token = none := htoken
    obtain rfl : span = none := hspan
    obtain rfl : complaint = .unexpectedEnd := hcomplaint
    exact ⟨items.length, by simp [SyntaxError.blaming, SyntaxError.atEnd]⟩
  case h_5 =>
    obtain ⟨first, last, start, equals, -, hitem, hnames, -⟩ := h
    exact ⟨first, hnamed hitem hnames⟩
  case h_7 => exact h.elim
  all_goals
    obtain ⟨place, item, hitem, hnames, -⟩ := h
    exact ⟨place, hnamed hitem hnames⟩

/-! ## Names, values and spans that are places -/

namespace Relabelling

/-- Nothing is left of names, values and spans. -/
def blank : Relabelling :=
  { name := fun _ => .none, value := fun _ => .none, lo := fun _ => 0, hi := fun _ => 0 }

/-- Every name, every value and both ends of every span are the same number. -/
def constant (number : Nat) : Relabelling :=
  { name := fun _ => .integer number, value := fun _ => .integer number
    lo := fun _ => number, hi := fun _ => number }

/-- The tokens, each of them relabelled with its place in the list. -/
def numbered (tokens : List Item) : List Item :=
  tokens.mapIdx fun place token => (constant place).item token

/-- What the token carries whose place a payload is. -/
def payloadAt (tokens : List Item) : Payload → Payload
  | .integer place => (tokens[place.toNat]?.map (·.token.payload)).getD .none
  | payload => payload

/-- Numbers are taken for places, and what stands there is put in. -/
def lookup (tokens : List Item) : Relabelling :=
  { name := payloadAt tokens, value := payloadAt tokens
    lo := fun place => (tokens[place.toNat]?.map (·.span.lo)).getD 0
    hi := fun place => (tokens[place.toNat]?.map (·.span.hi)).getD 0 }

/-- A token is found again at its place. -/
theorem lookup_constant {tokens : List Item} {place : Nat} {token : Item}
    (h : tokens[place]? = some token) :
    (lookup tokens).item ((constant place).item token) = token := by
  obtain ⟨⟨kind, payload⟩, span⟩ := token
  have hspan : (lookup tokens).span ((constant place).span span) = span := by
    simp [Relabelling.span, lookup, constant, h]
  have htoken : (lookup tokens).token ((constant place).token ⟨kind, payload⟩) =
      ⟨kind, payload⟩ := by
    cases kind
    case identifier | integer => simp [token, lookup, constant, payloadAt, h]
    all_goals rfl
  simp only [item, hspan, htoken]

theorem lookup_numbered (tokens : List Item) :
    (numbered tokens).map (lookup tokens).item = tokens := by
  refine List.ext_getElem? fun place => ?_
  rw [List.getElem?_map, numbered, List.getElem?_mapIdx, Option.map_map]
  cases h : tokens[place]? with
  | none => rfl
  | some token => exact congrArg some (lookup_constant h)

/-- A number makes no difference where nothing is left. -/
theorem constant_blank (number : Nat) (token : Item) :
    (constant number).item (blank.item token) = (constant number).item token := by
  obtain ⟨⟨kind, payload⟩, span⟩ := token
  cases kind <;> rfl

theorem numbered_blank (tokens : List Item) :
    numbered (tokens.map blank.item) = numbered tokens := by
  refine List.ext_getElem? fun place => ?_
  simp only [numbered, List.getElem?_mapIdx, List.getElem?_map, Option.map_map]
  cases tokens[place]? with
  | none => rfl
  | some token => exact congrArg some (constant_blank place token)

/-- Nothing is left of another relabelling. -/
@[simp] theorem blank_expr (r : Relabelling) (e : Expr) : blank.expr (r.expr e) = blank.expr e := by
  induction e with
  | print span operand ih | assign span name operand ih => simp only [expr, ih]; rfl
  | binary span operator left right ihl ihr => simp only [expr, ihl, ihr]; rfl
  | var span name | literal span value => rfl

theorem blank_program (r : Relabelling) (p : Program) :
    blank.program (r.program p) = blank.program p := by
  simp [program, Function.comp_def]

end Relabelling

/-! ## Answers -/

/-- Two lists of tokens are answered with programs of the same shape, or with the same complaint
    about the token at the same place, or about the end of both. -/
def SameDecision (tokens tokens' : List Item) :
    Except SourceError Program → Except SourceError Program → Prop
  | .ok program, .ok program' =>
    Relabelling.blank.program program = Relabelling.blank.program program'
  | .error error, .error error' => ∃ (place : Nat) (complaint : Complaint),
    error = .syntactic (.blaming tokens[place]? complaint) ∧
    error' = .syntactic (.blaming tokens'[place]? complaint)
  | _, _ => False

theorem answer_relabelled (r : Relabelling) (items : List Item) (maxDepth : Int) :
    answer (program { items := items.map r.item, maxDepth : Unbuffered }) =
      ((answer (program { items, maxDepth : Unbuffered })).map r.program).mapError r.error :=
  ((Unbuffered.relabelled r).program ⟨items, 0, maxDepth⟩ _ rfl).answer_eq

/-- Every error of a run over prepared items blames the item at some place, or the end. -/
theorem exists_place_of_answer_eq_error {items : List Item} {maxDepth : Int} {error : SourceError}
    (h : answer (program { items, maxDepth : Unbuffered }) = .error error) :
    ∃ (place : Nat) (complaint : Complaint),
      error = .syntactic (.blaming items[place]? complaint) := by
  have hreads := Unbuffered.answer_reads items maxDepth
  rw [h] at hreads
  obtain ⟨complaint, rfl, hblames⟩ := hreads
  obtain ⟨place, hplace⟩ := hblames.exists_place
  exact ⟨place, complaint.complaint, congrArg SourceError.syntactic hplace⟩

section Numbered

open Relabelling

variable (tokens : List Item) (maxDepth : Int)

/-- The answer to tokens is the one to their numbers, with what stands at these places put in. -/
theorem answer_numbered :
    answer (program { items := tokens, maxDepth : Unbuffered }) =
      ((answer (program { items := numbered tokens, maxDepth : Unbuffered })).map
        (lookup tokens).program).mapError (lookup tokens).error := by
  conv_lhs => rw [← lookup_numbered tokens]
  exact answer_relabelled ..

/-- Tokens with the same numbers are answered alike: what is put in changes no shape, and an item
    that is blamed is found at its place. -/
theorem sameDecision_of_numbered {tokens' : List Item} (h : numbered tokens = numbered tokens') :
    SameDecision tokens tokens'
      (answer (program { items := tokens, maxDepth : Unbuffered }))
      (answer (program { items := tokens', maxDepth : Unbuffered })) := by
  have hblamed (tokens : List Item) (place : Nat) (complaint : Complaint) :
      (lookup tokens).error (.syntactic (.blaming (numbered tokens)[place]? complaint)) =
        .syntactic (.blaming tokens[place]? complaint) := by
    rw [error_blaming, ← List.getElem?_map, lookup_numbered]
  rw [answer_numbered tokens, answer_numbered tokens', ← h]
  cases hrun : answer (program { items := numbered tokens, maxDepth : Unbuffered }) with
  | ok program =>
      show blank.program ((lookup tokens).program program) =
        blank.program ((lookup tokens').program program)
      rw [blank_program, blank_program]
  | error error =>
      obtain ⟨place, complaint, rfl⟩ := exists_place_of_answer_eq_error hrun
      exact ⟨place, complaint, hblamed tokens place complaint,
        h ▸ hblamed tokens' place complaint⟩

end Numbered

/-- **The parser decides on kinds alone.** Items whose names, values and spans are changed are
    answered with the same changes made to the answer: to every node of the program, or to the token
    and the span that are blamed under the same complaint. So tokens that differ in nothing else
    give trees of the same shape, or are rejected at the same place. -/
theorem parseFeed_relabelled (limits : Limits) (maxDepth : Int) :
    (∀ (r : Relabelling) (items : List Item),
      parseFeed limits (some maxDepth) (Feed.ofItems (items.map r.item)) =
        ((parseFeed limits (some maxDepth) (Feed.ofItems items)).map
          r.program).mapError r.error) ∧
    ∀ tokens tokens' : List Item,
      tokens.map Relabelling.blank.item = tokens'.map Relabelling.blank.item →
      SameDecision tokens tokens'
        (parseFeed limits (some maxDepth) (Feed.ofItems tokens))
        (parseFeed limits (some maxDepth) (Feed.ofItems tokens')) := by
  refine ⟨fun r items => ?_, fun tokens tokens' h => ?_⟩
  · rw [parseFeed_ofItems, parseFeed_ofItems, answer_relabelled]
  · have hnumbered : Relabelling.numbered tokens = Relabelling.numbered tokens' := by
      rw [← Relabelling.numbered_blank tokens, h, Relabelling.numbered_blank]
    rw [parseFeed_ofItems, parseFeed_ofItems]
    exact sameDecision_of_numbered tokens maxDepth hnumbered

/-- `x+1=` and `sum + 10 =` are rejected at the same place. -/
theorem parseFeed_relabelled_sum_before_equals :
    let tokens : List Item := [⟨⟨.identifier, .text ['x']⟩, ⟨0, 1⟩⟩, ⟨⟨.plus, .none⟩, ⟨1, 2⟩⟩,
      ⟨⟨.integer, .integer 1⟩, ⟨2, 3⟩⟩, ⟨⟨.equals, .none⟩, ⟨3, 4⟩⟩]
    let tokens' : List Item := [⟨⟨.identifier, .text ['s', 'u', 'm']⟩, ⟨0, 3⟩⟩,
      ⟨⟨.plus, .none⟩, ⟨4, 5⟩⟩, ⟨⟨.integer, .integer 10⟩, ⟨6, 8⟩⟩, ⟨⟨.equals, .none⟩, ⟨9, 10⟩⟩]
    tokens.map Relabelling.blank.item = tokens'.map Relabelling.blank.item ∧
      SameDecision tokens tokens'
        (parseFeed {} (some 100) (Feed.ofItems tokens))
        (parseFeed {} (some 100) (Feed.ofItems tokens')) := by
  intro tokens tokens'
  have hblank : tokens.map Relabelling.blank.item = tokens'.map Relabelling.blank.item := rfl
  exact ⟨hblank, (parseFeed_relabelled {} 100).2 tokens tokens' hblank⟩

end ScriptFront
