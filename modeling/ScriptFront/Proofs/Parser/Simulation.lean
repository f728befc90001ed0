import ScriptFront.Parser.Operation
import ScriptFront.Proofs.Parser.Walk
import ScriptFront.Proofs.Run

set_option autoImplicit false

/-! # Simulations between token machines

Two states of token machines are alike if the same operations give the same answers from then on,
up to a relabelling of the tokens. Where the steps of two machines end alike on related states and
leave related states behind, all that is put together from them does so (`SameSteps.walk`), and a
simulation is a relation of that kind: every operation of a parser answers alike on related states
(`Simulation.perform`). A property of the states of one machine that its operations keep is a
simulation of that machine by itself (`Simulation.ofInvariant`). -/

namespace ScriptFront

open Run

/-! ## Results that agree -/

/-- Two runs ended alike, in related states: with the second answer made from the first, or with the
    relabelled error. -/
def SameResult (r : Relabelling) {σ τ α β : Type} (related : σ → τ → Prop) (image : α → β) :
    EStateM.Result SourceError σ α → EStateM.Result SourceError τ β → Prop
  | .ok a s, .ok b t => b = image a ∧ related s t
  | .error e s, .error f t => f = r.error e ∧ related s t
  | _, _ => False

/-- Two operations end alike on all related states, unless the first one fails for a reason that is
    excused. -/
def SameUnless (r : Relabelling) (excused : SourceError → Prop) {σ τ α β : Type}
    (related : σ → τ → Prop) (image : α → β) (p : Parse σ α) (q : Parse τ β) : Prop :=
  ∀ s t, related s t →
    (∃ e s', p s = .error e s' ∧ excused e) ∨ SameResult r related image (p s) (q t)

/-- Two operations end alike on all related states. -/
def Same (r : Relabelling) {σ τ α β : Type} (related : σ → τ → Prop) (image : α → β)
    (p : Parse σ α) (q : Parse τ β) : Prop :=
  ∀ s t, related s t → SameResult r related image (p s) (q t)

/-- Either both runs have answered, or both have failed. -/
theorem SameResult.cases {r : Relabelling} {σ τ α β : Type} {related : σ → τ → Prop} {image : α → β}
    {res : EStateM.Result SourceError σ α} {res' : EStateM.Result SourceError τ β}
    (h : SameResult r related image res res') :
    (∃ a s t, res = .ok a s ∧ res' = .ok (image a) t ∧ related s t) ∨
      ∃ e s t, res = .error e s ∧ res' = .error (r.error e) t ∧ related s t := by
  cases res <;> cases res'
  case ok.ok a s b t => exact .inl ⟨a, s, t, rfl, by rw [h.1], h.2⟩
  case error.error e s f t => exact .inr ⟨e, s, t, rfl, by rw [h.1], h.2⟩
  all_goals exact h.elim

/-- Where the second state is made from the first one, so is the second result. -/
theorem SameResult.eq_mapState {σ τ α : Type} {f : σ → τ} {image : α → α}
    {res : EStateM.Result SourceError σ α} {res' : EStateM.Result SourceError τ α}
    (h : SameResult .unchanged (fun s t => t = f s) image res res') (himage : ∀ a, image a = a) :
    res' = mapState f res := by
  obtain ⟨a, s, t, rfl, rfl, rfl⟩ | ⟨e, s, t, rfl, rfl, rfl⟩ := h.cases
  · rw [himage]
    rfl
  · rw [Relabelling.error_unchanged]
    rfl

section Results

variable {r : Relabelling} {excused : SourceError → Prop} {σ τ α β γ δ : Type}
  {related : σ → τ → Prop} {image : α → β} {image' : γ → δ} {p : Parse σ α} {q : Parse τ β}

theorem Same.sameUnless (h : Same r related image p q) : SameUnless r excused related image p q :=
  fun s t hrel => .inr (h s t hrel)

theorem SameUnless.same (h : SameUnless r (fun _ => False) related image p q) :
    Same r related image p q :=
  fun s t hrel => (h s t hrel).resolve_left fun ⟨_, _, _, hexcused⟩ => hexcused

theorem SameUnless.bind {f : α → Parse σ γ} {g : β → Parse τ δ}
    (hpq : SameUnless r excused related image p q)
    (hfg : ∀ a, SameUnless r excused related image' (f a) (g (image a))) :
    SameUnless r excused related image' (p >>= f) (q >>= g) := by
  intro s t h
  obtain ⟨e, s', hp, hexcused⟩ | hres := hpq s t h
  · exact .inl ⟨e, s', bind_of_error hp, hexcused⟩
  · obtain ⟨a, s', t', hp, hq, hrel⟩ | ⟨e, s', t', hp, hq, hrel⟩ := hres.cases
    · rw [bind_of_ok hp, bind_of_ok hq]
      exact hfg a s' t' hrel
    · rw [bind_of_error hp, bind_of_error hq]
      exact .inr ⟨rfl, hrel⟩

namespace Same

theorem pure {a : α} {b : β} (h : b = image a) :
    Same r related image (Pure.pure a) (Pure.pure b) := fun _ _ hrel => ⟨h, hrel⟩

theorem reject (item : Option Item) (complaint : Complaint) :
    Same r related image (Parse.reject item complaint)
      (Parse.reject (item.map r.item) complaint) :=
  fun _ _ h => ⟨(r.error_blaming item complaint).symm, h⟩

theorem bind {f : α → Parse σ γ} {g : β → Parse τ δ} (hpq : Same r related image p q)
    (hfg : ∀ a, Same r related image' (f a) (g (image a))) :
    Same r related image' (p >>= f) (q >>= g) :=
  (hpq.sameUnless.bind fun a => (hfg a).sameUnless).same

/-- Related runs have the same continuation done to their answers. -/
theorem map {f : α → γ} {g : β → δ} (hpq : Same r related image p q)
    (hfg : ∀ a, g (image a) = image' (f a)) :
    Same r related image' (do return f (← p)) (do return g (← q)) :=
  hpq.bind fun a => .pure (hfg a)

end Same

end Results

/-! ## Operations of a given size -/

/-- The answer of an operation that is given its fuel and its room. -/
def Parse.performWith {σ : Type} [TokenMachine σ] (fuel room : Nat) :
    Operation → Parse σ ParserAnswer
  | .program => return .program ⟨← statementsWith fuel room fuel⟩
  | .statement => return .expr (← statementWith fuel room)
  | .assign => return .expr (← assignWith fuel room)
  | .term => return .expr (← termWith fuel (assignWith fuel room))
  | .fact => return .expr (← factWith fuel (assignWith fuel room))
  | .atom => return .expr (← atomWith (assignWith fuel room))
  | op => perform op

theorem Parse.program_eq {σ : Type} [TokenMachine σ] :
    (program : Parse σ Program) = sized fun fuel room =>
      return ⟨← statementsWith fuel room fuel⟩ := by
  funext state
  simp only [program, sized, bind_pure_comp, map_apply]

theorem Parse.perform_eq {σ : Type} [TokenMachine σ] (op : Operation) :
    (perform op : Parse σ ParserAnswer) = sized fun fuel room => performWith fuel room op := by
  cases op with
  | program => simp only [perform, program, performWith, bind_assoc, pure_bind]; rfl
  | _ => rfl

/-! ## Steps that end alike -/

/-- The steps of two machines end alike on related states. The relation may depend on the number of
    levels for which there is room. -/
structure SameSteps (r : Relabelling) {σ τ : Type} [TokenMachine σ] [TokenMachine τ]
    (related : Nat → σ → τ → Prop) : Prop where
  look : ∀ {room : Nat} (ahead : Nat), Same r (related room) (Option.map r.item)
    (TokenMachine.look ahead) (TokenMachine.look ahead)
  take : ∀ {room : Nat}, Same r (related room) (Option.map r.item)
    TokenMachine.take TokenMachine.take
  prefetch : ∀ {room : Nat} (count : Nat), Same r (related room) id
    (TokenMachine.prefetch count) (TokenMachine.prefetch count)
  enter : ∀ {room : Nat} {s : σ} {t : τ}, related (room + 1) s t →
    related room (TokenMachine.enter s) (TokenMachine.enter t)
  leave : ∀ {room : Nat} {s s' : σ} {t t' : τ}, related (room + 1) s t → related room s' t' →
    related (room + 1) (TokenMachine.leave s') (TokenMachine.leave t')

namespace SameSteps

variable {r : Relabelling} {σ τ : Type} [TokenMachine σ] [TokenMachine τ]
  {related : Nat → σ → τ → Prop}

theorem deeper (h : SameSteps r related) {excused : SourceError → Prop} {α β : Type} {room : Nat}
    {image : α → β} {p : Parse σ α} {q : Parse τ β}
    (hpq : SameUnless r excused (related room) image p q) :
    SameUnless r excused (related (room + 1)) image (Parse.deeper p) (Parse.deeper q) := by
  intro s t hrel
  unfold Parse.deeper
  obtain ⟨e, s', hp, hexcused⟩ | hres := hpq _ _ (h.enter hrel)
  · rw [hp]
    exact .inl ⟨e, _, rfl, hexcused⟩
  · obtain ⟨a, s', t', hp, hq, hrel'⟩ | ⟨e, s', t', hp, hq, hrel'⟩ := hres.cases
    · rw [hp, hq]
      exact .inr ⟨rfl, h.leave hrel hrel'⟩
    · rw [hp, hq]
      exact .inr ⟨rfl, h.leave hrel hrel'⟩

/-- Whatever is put together from such steps ends alike on related states. If complaints about the
    depth are excused, the second machine may have more room than the first one. -/
def walk (h : SameSteps r related) (excused : SourceError → Prop) : Walk r σ τ where
  Goes room _ _ image p q := SameUnless r excused (related room) image p q
  Rooms room room' := room = room' ∨ room ≤ room' ∧
    ∀ start, excused (.syntactic (.blaming (some start) .tooDeep))
  Fuels _ fuel fuel' := fuel = fuel'
  answer himage _ := (Same.pure himage).sameUnless
  bind hp hf := hp.bind hf
  strengthen _ hgoes := hgoes
  weaken _ hgoes := hgoes
  look := (h.look 0).sameUnless
  lookAhead := (h.look 0).sameUnless
  lookBehind _ := (h.look 1).sameUnless
  take := h.take.sameUnless
  takeAhead := h.take.sameUnless
  rejectEnd := (Same.reject none _).sameUnless
  reject _ := (Same.reject (some _) _).sameUnless
  rejectTarget := (Same.reject (some _) _).sameUnless
  deeper hgoes := h.deeper hgoes
  rooms_succ := by
    rintro room room' (hsame | ⟨hle, hexcused⟩)
    · exact (room_inner hsame).imp fun _ hinner => ⟨hinner.1, .inl hinner.2⟩
    · exact ⟨room' - 1, by omega, .inr ⟨by omega, hexcused⟩⟩
  tooDeep := by
    rintro α β room taken after image start q (hroom | ⟨-, hexcused⟩)
    · exact absurd hroom (Nat.zero_ne_add_one _)
    · exact fun s _ _ => .inl ⟨_, s, rfl, hexcused start⟩
  fuels_later hfuel := hfuel
  fuels_succ hfuel := Nat.succ.inj hfuel
  unequal hfuel _ hne := absurd hfuel hne
  exhausted _ himage := (Same.pure himage).sameUnless

/-! ### Operations -/

section Judgements

variable (h : SameSteps r related) {α β : Type} {room : Nat} {after : α → Phase} {image : α → β}
  {p : Parse σ α} {q : Parse τ β}

theorem sameUnless {excused : SourceError → Prop}
    (hgoes : (h.walk excused).Goes room (.settled 0) after image p q) :
    SameUnless r excused (related room) image p q := hgoes

theorem same (hgoes : (h.walk fun _ => False).Goes room (.settled 0) after image p q) :
    Same r (related room) image p q := (h.sameUnless hgoes).same

end Judgements

theorem phrase (h : SameSteps r related) {room : Nat} {before : Nat → Phase} {p : Parse σ Expr}
    {q : Parse τ Expr} (hphrase : (h.walk fun _ => False).Phrase room before p q) :
    Same r (related room) r.expr p q := SameUnless.same (hphrase 0)

theorem assignWith (h : SameSteps r related) (fuel room : Nat) :
    (h.walk fun _ => False).Phrase room .settled (Parse.assignWith fuel room)
      (Parse.assignWith fuel room) := Walk.assignWith rfl (.inl rfl)

theorem levelWith (h : SameSteps r related) (fuel room : Nat) (start : Item) :
    Same r (related room) r.expr (Parse.levelWith fuel (Parse.assignWith fuel room) start)
      (Parse.levelWith fuel (Parse.assignWith fuel room) (r.item start)) :=
  h.phrase (Walk.levelWith rfl (h.assignWith fuel room) start)

theorem statementsWith (h : SameSteps r related) (fuel room count : Nat) :
    Same r (related room) (List.map r.expr) (Parse.statementsWith fuel room count)
      (Parse.statementsWith fuel room count) :=
  h.same (Walk.statementsWith rfl (Or.inl rfl) 0 rfl)

/-- Every operation ends alike on related states if it is given the same fuel and room. -/
theorem performWith (h : SameSteps r related) (fuel room : Nat) (op : Operation) :
    Same r (related room) r.answer (Parse.performWith fuel room op)
      (Parse.performWith fuel room op) := by
  cases op with
  | prefetch count => exact (h.prefetch count).map fun _ => rfl
  | current => exact (h.look 0).map fun _ => rfl
  | peek offset => exact (h.look offset).map fun _ => rfl
  | isAt names => exact (h.same (Walk.isAt _ _)).map fun _ => rfl
  | advance => exact (h.same (Walk.advance _)).map fun _ => rfl
  | expect name text =>
      simp only [Parse.performWith, Parse.perform]
      cases TokenKind.ofName? name with
      | none => exact (h.look 0).bind fun item => .reject item _
      | some kind =>
          have hcomplaint : Complaint.other text ≠ .badTarget := nofun
          exact (h.same (Walk.expect _ kind hcomplaint)).map fun _ => rfl
  | program => exact (h.statementsWith fuel room fuel).map fun _ => rfl
  | statement => exact (h.same (Walk.statementWith rfl (Or.inl rfl) 0)).map fun _ => rfl
  | assign => exact (h.phrase (h.assignWith fuel room)).map fun _ => rfl
  | term => exact (h.phrase (Walk.termWith rfl (h.assignWith fuel room))).map fun _ => rfl
  | fact => exact (h.phrase (Walk.factWith rfl (h.assignWith fuel room))).map fun _ => rfl
  | atom => exact (h.phrase (Walk.atomWith (h.assignWith fuel room))).map fun _ => rfl

end SameSteps

/-! ## Simulations -/

/-- A relation between the states of two token machines that every operation keeps, up to a
    relabelling of the tokens. -/
structure Simulation (r : Relabelling) (σ τ : Type) [TokenMachine σ] [TokenMachine τ] where
  related : σ → τ → Prop
  steps : SameSteps r fun _ => related
  room : ∀ s t, related s t → TokenMachine.room s = TokenMachine.room t
  bound : ∀ s t, related s t → TokenMachine.bound s = TokenMachine.bound t

namespace Simulation

variable {r : Relabelling} {σ τ : Type} [TokenMachine σ] [TokenMachine τ] (sim : Simulation r σ τ)

theorem sized {α β : Type} {image : α → β} {p : Nat → Nat → Parse σ α} {q : Nat → Nat → Parse τ β}
    (hpq : ∀ fuel room, Same r sim.related image (p fuel room) (q fuel room)) :
    Same r sim.related image (Parse.sized p) (Parse.sized q) := by
  intro s t h
  unfold Parse.sized
  rw [sim.bound s t h, sim.room s t h]
  exact hpq _ _ s t h

theorem statement : Same r sim.related r.expr Parse.statement Parse.statement :=
  sim.sized fun _ _ => sim.steps.same (Walk.statementWith rfl (Or.inl rfl) 0)

/-- Reading a program ends alike on related states. -/
theorem program : Same r sim.related r.program Parse.program Parse.program := by
  rw [Parse.program_eq, Parse.program_eq]
  exact sim.sized fun fuel room => (sim.steps.statementsWith fuel room fuel).map fun _ => rfl

/-- Every operation ends alike on related states. -/
theorem perform (op : Operation) :
    Same r sim.related r.answer (Parse.perform op) (Parse.perform op) := by
  rw [Parse.perform_eq, Parse.perform_eq]
  exact sim.sized fun fuel room => sim.steps.performWith fuel room op

end Simulation

/-! ## Invariants -/

/-- An operation keeps a property of the states, however it ends. -/
def Keeps {σ α : Type} (inv : σ → Prop) (p : Parse σ α) : Prop :=
  ∀ s, inv s → inv (Parse.outcome (p s)).2

section Invariants

variable {σ α β : Type} {inv : σ → Prop}

theorem Keeps.bind {p : Parse σ α} {f : α → Parse σ β} (hp : Keeps inv p)
    (hf : ∀ a, Keeps inv (f a)) : Keeps inv (p >>= f) := by
  intro s hinv
  have hkept := hp s hinv
  cases hres : p s with
  | ok a s' => rw [hres] at hkept; rw [bind_of_ok hres]; exact hf a s' hkept
  | error e s' => rw [hres] at hkept; rw [bind_of_error hres]; exact hkept

theorem Keeps.same {p : Parse σ α} {image : α → α} (h : Keeps inv p) (himage : ∀ a, image a = a) :
    Same .unchanged (fun s t => s = t ∧ inv s) image p p := by
  rintro s _ ⟨rfl, hinv⟩
  have hkept := h s hinv
  cases hres : p s with
  | ok a s' => rw [hres] at hkept; exact ⟨(himage a).symm, rfl, hkept⟩
  | error e s' => rw [hres] at hkept; exact ⟨(Relabelling.error_unchanged e).symm, rfl, hkept⟩

theorem Same.keeps {r : Relabelling} {p : Parse σ α} {image : α → α}
    (h : Same r (fun s t => s = t ∧ inv s) image p p) : Keeps inv p := by
  intro s hinv
  have hres := h s s ⟨rfl, hinv⟩
  cases hrun : p s <;> rw [hrun] at hres <;> exact hres.2.2

variable [TokenMachine σ]

/-- The steps of a machine that keep a property end alike if they are taken twice. The property may
    depend on the number of levels for which there is room. -/
theorem SameSteps.ofInvariant {inv : Nat → σ → Prop}
    (look : ∀ room ahead, Keeps (inv room) (TokenMachine.look ahead))
    (take : ∀ room, Keeps (inv room) TokenMachine.take)
    (prefetch : ∀ room count, Keeps (inv room) (TokenMachine.prefetch count))
    (enter : ∀ {room s}, inv (room + 1) s → inv room (TokenMachine.enter s))
    (leave : ∀ {room s s'}, inv (room + 1) s → inv room s' →
      inv (room + 1) (TokenMachine.leave s')) :
    SameSteps .unchanged fun room s t => s = t ∧ inv room s where
  look ahead := (look _ ahead).same Relabelling.map_item_unchanged
  take := (take _).same Relabelling.map_item_unchanged
  prefetch count := (prefetch _ count).same fun _ => rfl
  enter := by rintro room s _ ⟨rfl, h⟩; exact ⟨rfl, enter h⟩
  leave := by rintro room s s' _ _ ⟨-, h⟩ ⟨rfl, h'⟩; exact ⟨rfl, leave h h'⟩

/-- What the steps of a machine keep is a simulation of the machine by itself. -/
def Simulation.ofInvariant (inv : σ → Prop) (look : ∀ ahead, Keeps inv (TokenMachine.look ahead))
    (take : Keeps inv TokenMachine.take)
    (prefetch : ∀ count, Keeps inv (TokenMachine.prefetch count))
    (enter : ∀ s, inv s → inv (TokenMachine.enter s))
    (leave : ∀ s, inv s → inv (TokenMachine.leave s)) : Simulation .unchanged σ σ where
  related s t := s = t ∧ inv s
  steps := .ofInvariant (fun _ => look) (fun _ => take) (fun _ => prefetch)
    (fun h => enter _ h) fun _ h => leave _ h
  room := by rintro s _ ⟨rfl, -⟩; rfl
  bound := by rintro s _ ⟨rfl, -⟩; rfl

end Invariants

end ScriptFront
