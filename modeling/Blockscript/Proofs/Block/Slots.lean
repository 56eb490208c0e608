import Mathlib.Data.List.Forall2
import Blockscript.Block.Lowering
import Blockscript.Proofs.Script.Writable

/-!
Arguments and slots.  Lowering a writable routine fails only when some argument
list is too long for its chest; otherwise every instruction holds the arguments
written for it, in consecutive slots.
-/

namespace Blockscript

open Script (Value Subject Step Statement Routine BodyIsWritable)

/-- What a computation comes to that fails exactly when a chest is overfull. -/
def Settles {α : Type} (overfull : Prop) (P : α → Prop) (result : Except Fault α) : Prop :=
  (overfull ∧ result = .error (.slotOutside 27)) ∨ (¬ overfull ∧ ∃ a, result = .ok a ∧ P a)

section Settles

variable {α β : Type}

theorem settles_ok {P : α → Prop} {a : α} (ha : P a) : Settles False P (.ok a) :=
  .inr ⟨not_false, a, rfl, ha⟩

theorem Settles.congr {p q : Prop} {P : α → Prop} {result : Except Fault α}
    (h : Settles p P result) (hpq : p ↔ q) : Settles q P result := by
  rwa [propext hpq] at h

theorem Settles.bind {p q : Prop} {P : α → Prop} {Q : β → Prop} {x : Except Fault α}
    {f : α → Except Fault β} (hx : Settles p P x) (hf : ∀ a, P a → Settles q Q (f a)) :
    Settles (p ∨ q) Q (x >>= f) := by
  rcases hx with ⟨hp, rfl⟩ | ⟨hp, a, rfl, ha⟩
  · exact .inl ⟨.inl hp, rfl⟩
  · rcases hf a ha with ⟨hq, hfail⟩ | ⟨hq, b, hsucceed, hb⟩
    · exact .inl ⟨.inr hq, hfail⟩
    · exact .inr ⟨not_or.mpr ⟨hp, hq⟩, b, hsucceed, hb⟩

theorem Settles.map {p : Prop} {P : α → Prop} {Q : β → Prop} {x : Except Fault α}
    {f : α → β} (hx : Settles p P x) (hf : ∀ a, P a → Q (f a)) :
    Settles p Q (x >>= fun a => .ok (f a)) :=
  (hx.bind fun a ha => settles_ok (hf a ha)).congr (Iff.of_eq (or_false p))

end Settles

/-! ### Items -/

/-- Items that hold values in consecutive slots, each as it is rendered. -/
structure Holds (values : List Value) (first : Nat) (items : List Item) : Prop where
  order : items.map Item.value = values
  slots : items.map (fun item => item.slot.val) = List.range' first values.length
  rendered : ∀ item ∈ items, renderValue item.value = .ok (item.tag, item.data)

theorem renderValue_eq_ok {value : Value} (hvalue : value.IsWritable) :
    ∃ tag data, renderValue value = .ok (tag, data) := by
  cases value with
  | formless => exact hvalue.elim
  | _ => exact ⟨_, _, rfl⟩

theorem Holds.cons {value : Value} {values : List Value} {first : Nat} {item : Item}
    {items : List Item} (hitem : Holds [value] first [item])
    (hitems : Holds values (first + 1) items) :
    Holds (value :: values) first (item :: items) where
  order := by
    have horder := hitem.order
    rw [List.map_singleton, List.cons.injEq] at horder
    rw [List.map_cons, hitems.order, horder.1]
  slots := by
    have hslots := hitem.slots
    rw [List.map_singleton, List.length_singleton, List.range'_one, List.cons.injEq] at hslots
    rw [List.map_cons, hitems.slots, hslots.1, List.length_cons, List.range'_succ]
  rendered := List.forall_mem_cons.mpr ⟨hitem.rendered item List.mem_cons_self, hitems.rendered⟩

/-- A value that can be written has its item in every slot of the chest. -/
theorem make_eq_ok {value : Value} (hvalue : value.IsWritable) {n : Nat} (hn : n < 27) :
    ∃ item, Item.make renderValue value n = .ok item ∧ Holds [value] n [item] := by
  obtain ⟨tag, data, hrender⟩ := renderValue_eq_ok hvalue
  have hslot : Item.slotOf n = .ok ⟨n, hn⟩ := by
    have hinside : (0 : Int) ≤ n ∧ (n : Int) ≤ lastSlot := by
      rw [lastSlot]
      omega
    rw [Item.slotOf, dif_pos hinside]
    rfl
  refine ⟨⟨tag, ⟨n, hn⟩, value, data⟩, ?_, rfl, rfl, by simpa using hrender⟩
  rw [Item.make, hslot, hrender]
  rfl

theorem make_eq_error (value : Value) :
    Item.make renderValue value (27 : Nat) = .error (.slotOutside 27) := rfl

/-- The arguments from slot `first` on fill a row, unless they go beyond the
chest. -/
theorem settles_row {values : List Value} (hvalues : ∀ value ∈ values, value.IsWritable)
    {first : Nat} (hfirst : first ≤ 27) :
    Settles (27 < first + values.length) (Holds values first)
      (Item.row renderValue values first) := by
  induction values generalizing first with
  | nil =>
      have hrow : Holds [] first [] := ⟨rfl, rfl, List.forall_mem_nil _⟩
      refine (settles_ok hrow).congr ?_
      simp only [List.length_nil, false_iff]
      omega
  | cons value values ih =>
      obtain ⟨hvalue, hvalues⟩ := List.forall_mem_cons.mp hvalues
      rw [Item.row]
      by_cases hfull : first = 27
      · subst hfull
        refine .inl ⟨by simp, ?_⟩
        rw [make_eq_error]
        rfl
      · obtain ⟨item, hmake, hitem⟩ := make_eq_ok hvalue (show first < 27 by omega)
        have hmore := ih hvalues (show first + 1 ≤ 27 by omega)
        have hrow := hmore.map fun items hitems => hitem.cons hitems
        rw [hmake]
        refine hrow.congr ?_
        rw [List.length_cons]
        omega

/-- The variable of an instruction is in the first slot and tagged as one. -/
theorem subject_eq_ok {target : Value} (htarget : target.IsWritableReference) :
    ∃ item, Item.subject renderValue target = .ok item ∧ Holds [target] 0 [item] ∧
      item.tag = "var" := by
  cases target with
  | reference name scope =>
      refine ⟨_, rfl, ⟨rfl, rfl, ?_⟩, rfl⟩
      intro item hitem
      rw [List.mem_singleton] at hitem
      subst hitem
      rfl
  | _ => exact htarget.elim

/-! ### Sites of arguments -/

def actionWord : Subject → String
  | .player => "player_action"
  | .entity => "entity_action"
  | .plot => "game_action"
  | .other _ => ""

def conditionWord : Subject → String
  | .player => "if_player"
  | .entity => "if_entity"
  | .plot => "if_game"
  | .other _ => ""

/-- What an instruction is written with: its kind, the variable it works on if it
has one, its arguments and the slot of the first of them. -/
structure Site where
  kind : String
  target : Option Value := none
  arguments : List Value := []
  first : Nat := 0

def Site.ofStep (step : Step) : Site :=
  { kind := "select_obj", arguments := step.arguments, first := 1 }

mutual

/-- The sites of a statement and of the statements in it, in the order in which
they are written.  A selection is followed by the site of its reset. -/
def Site.ofStatement : Statement → List Site
  | .action subject _ arguments => [{ kind := actionWord subject, arguments }]
  | .assignment target _ _ arguments =>
      [{ kind := "set_var", target := some target, arguments, first := 1 }]
  | .condition subject _ arguments body _ =>
      { kind := conditionWord subject, arguments } :: Site.ofBody body
  | .variableCondition target _ _ arguments body =>
      { kind := "if_var", target := some target, arguments, first := 1 } :: Site.ofBody body
  | .otherwise body => { kind := "else" } :: Site.ofBody body
  | .selection steps body =>
      steps.map Site.ofStep ++ Site.ofBody body ++ [{ kind := "select_obj" }]
  | .call _ _ => []
  | .stray _ => []

def Site.ofBody : List Statement → List Site
  | [] => []
  | statement :: rest => Site.ofStatement statement ++ Site.ofBody rest

end

/-- An instruction that holds what its site is written with: the variable in the
first slot, tagged as one, and the arguments from their first slot on. -/
def Site.Filled (site : Site) (content : Instruction) : Prop :=
  content.kind = site.kind ∧
    match site.target with
    | none => Holds site.arguments site.first content.items
    | some target => ∃ subject items, content.items = subject :: items ∧
        Holds [target] 0 [subject] ∧ subject.tag = "var" ∧
        Holds site.arguments site.first items

def instructions : List Block → List Instruction
  | [] => []
  | .instruction content :: rest => content :: instructions rest
  | _ :: rest => instructions rest

theorem instructions_append (left right : List Block) :
    instructions (left ++ right) = instructions left ++ instructions right := by
  induction left with
  | nil => rfl
  | cons block left ih => cases block <;> simp [instructions, ih]

mutual

/-- A statement with more arguments than its chest holds, in itself or in a
statement nested in it: 27 where all slots are free, 26 behind the first one. -/
def Overfull : Statement → Prop
  | .action _ _ arguments => 27 < arguments.length
  | .assignment _ _ _ arguments => 26 < arguments.length
  | .condition _ _ arguments body _ => 27 < arguments.length ∨ BodyOverfull body
  | .variableCondition _ _ _ arguments body => 26 < arguments.length ∨ BodyOverfull body
  | .otherwise body => BodyOverfull body
  | .selection steps body =>
      (∃ step ∈ steps, 26 < step.arguments.length) ∨ BodyOverfull body
  | .call _ _ => False
  | .stray _ => False

def BodyOverfull : List Statement → Prop
  | [] => False
  | statement :: rest => Overfull statement ∨ BodyOverfull rest

end

/-- Blocks whose instructions fill the given sites, in order. -/
def Fills (sites : List Site) (blocks : List Block) : Prop :=
  List.Forall₂ Site.Filled sites (instructions blocks)

theorem Fills.append {left right : List Site} {first rest : List Block}
    (hfirst : Fills left first) (hrest : Fills right rest) :
    Fills (left ++ right) (first ++ rest) := by
  rw [Fills, instructions_append]
  exact List.rel_append hfirst hrest

theorem Fills.wrap {site : Site} {sites : List Site} {content : Instruction}
    {inner : List Block} (hinner : Fills sites inner) (hsite : site.Filled content) :
    Fills (site :: sites) (Block.wrap .normal (.instruction content) inner) := by
  have hinstructions : instructions (Block.wrap .normal (.instruction content) inner) =
      content :: instructions inner := by
    simp [Block.wrap, instructions, instructions_append]
  rw [Fills, hinstructions]
  exact .cons hsite hinner

/-! ### Lowering fills the sites -/

theorem kinds_eq_ok {subject : Subject} (hsubject : subject.IsWritable) :
    actionKinds.of subject = .ok (actionWord subject) ∧
      conditionKinds.of subject = .ok (conditionWord subject) := by
  simp only [Subject.IsWritable, List.mem_cons, List.not_mem_nil, or_false] at hsubject
  rcases hsubject with rfl | rfl | rfl <;> exact ⟨rfl, rfl⟩

theorem settles_arguments {arguments : List Value}
    (harguments : ∀ value ∈ arguments, value.IsWritable) :
    Settles (27 < arguments.length) (Holds arguments 0)
      (Item.row renderValue arguments 0) := by
  have hrow := settles_row harguments (Nat.zero_le 27)
  rwa [Nat.zero_add] at hrow

theorem settles_arguments_behind {arguments : List Value}
    (harguments : ∀ value ∈ arguments, value.IsWritable) :
    Settles (26 < arguments.length) (Holds arguments 1)
      (Item.row renderValue arguments Item.secondSlot) := by
  have hrow := settles_row harguments (show 1 ≤ 27 by decide)
  exact hrow.congr (by omega)

/-- The items of an instruction with a variable. -/
theorem settles_rowAfter {target : Value} {arguments : List Value}
    (htarget : target.IsWritableReference)
    (harguments : ∀ value ∈ arguments, value.IsWritable) :
    Settles (26 < arguments.length)
      (fun all => ∃ subject items, all = subject :: items ∧ Holds [target] 0 [subject] ∧
        subject.tag = "var" ∧ Holds arguments 1 items)
      (Item.rowAfter renderValue target arguments) := by
  obtain ⟨subject, hsubject, hholds, htag⟩ := subject_eq_ok htarget
  rw [Item.rowAfter, hsubject]
  exact (settles_arguments_behind harguments).map fun items hitems =>
    ⟨subject, items, rfl, hholds, htag, hitems⟩

theorem settles_step {step : Step} (hstep : step.IsWritable) :
    Settles (26 < step.arguments.length)
      (fun block => ∃ content, block = .instruction content ∧ (Site.ofStep step).Filled content)
      (lowerStep renderValue step) :=
  (settles_arguments_behind hstep.2.2).map fun _ hitems => ⟨_, rfl, rfl, hitems⟩

theorem settles_steps {steps : List Step} (hsteps : ∀ step ∈ steps, step.IsWritable) :
    Settles (∃ step ∈ steps, 26 < step.arguments.length) (Fills (steps.map Site.ofStep))
      (lowerSteps renderValue steps) := by
  induction steps with
  | nil =>
      have hnone : Fills [] [] := .nil
      exact (settles_ok hnone).congr (by simp)
  | cons step steps ih =>
      obtain ⟨hstep, hsteps⟩ := List.forall_mem_cons.mp hsteps
      have hall := (settles_step hstep).bind fun block hblock =>
        (ih hsteps).map (Q := Fills ((step :: steps).map Site.ofStep))
          (f := fun blocks => block :: blocks) fun blocks hblocks => by
            obtain ⟨content, rfl, hfilled⟩ := hblock
            exact .cons hfilled hblocks
      exact hall.congr (by simp)

mutual

/-- A writable statement is lowered to instructions that fill its sites, unless
it is overfull. -/
theorem settles_statement (settings : Settings) : {statement : Statement} →
    statement.IsWritable →
    Settles (Overfull statement) (Fills (Site.ofStatement statement))
      (lowerStatement settings renderValue statement)
  | .action subject name arguments, ⟨hsubject, _, harguments⟩ => by
      rw [lowerStatement, (kinds_eq_ok hsubject).1]
      exact (settles_arguments harguments).map fun items hitems =>
        .cons ⟨rfl, hitems⟩ .nil
  | .assignment target operator verb arguments, ⟨htarget, _, _, harguments⟩ => by
      rw [lowerStatement]
      exact (settles_rowAfter htarget harguments).map fun items hitems =>
        .cons ⟨rfl, hitems⟩ .nil
  | .condition subject name arguments body negated,
      ⟨hsubject, _, _, harguments, hbody⟩ => by
      rw [lowerStatement, (kinds_eq_ok hsubject).2]
      refine (settles_arguments harguments).bind fun items hitems => ?_
      exact (settles_body settings hbody).map fun inner hinner =>
        hinner.wrap ⟨rfl, hitems⟩
  | .variableCondition target operator name arguments body,
      ⟨htarget, _, _, harguments, hbody⟩ => by
      rw [lowerStatement]
      refine (settles_rowAfter htarget harguments).bind fun items hitems => ?_
      exact (settles_body settings hbody).map fun inner hinner =>
        hinner.wrap ⟨rfl, hitems⟩
  | .otherwise body, hbody => by
      rw [lowerStatement]
      exact (settles_body settings hbody).map fun inner hinner =>
        hinner.wrap ⟨rfl, rfl, rfl, List.forall_mem_nil _⟩
  | .selection steps body, ⟨_, hsteps, hbody⟩ => by
      rw [lowerStatement]
      refine (settles_steps hsteps).bind fun selected hselected => ?_
      refine (settles_body settings hbody).map fun inner hinner => ?_
      have hreset : Fills [{ kind := "select_obj" }] [resetSelection] :=
        .cons ⟨rfl, rfl, rfl, List.forall_mem_nil _⟩ .nil
      exact (hselected.append hinner).append hreset
  | .call name true, _ => settles_ok .nil
  | .call name false, _ => settles_ok .nil
  | .stray _, h => h.elim

theorem settles_body (settings : Settings) : {body : List Statement} → BodyIsWritable body →
    Settles (BodyOverfull body) (Fills (Site.ofBody body))
      (lowerBody settings renderValue body)
  | [], _ => settles_ok .nil
  | statement :: rest, ⟨hstatement, hrest⟩ => by
      rw [lowerBody]
      refine (settles_statement settings hstatement).bind fun blocks hblocks => ?_
      exact (settles_body settings hrest).map fun more hmore => hblocks.append hmore

end

theorem definition_eq_ok {routine : Routine} (hroutine : routine.IsWritable) :
    ∃ head, definition routine = .ok head ∧
      ∀ blocks, instructions (head :: blocks) = instructions blocks := by
  obtain ⟨kind, name, body, line, column⟩ := routine
  obtain ⟨hkind, -, -⟩ := hroutine
  simp only [List.mem_cons, List.not_mem_nil, or_false] at hkind
  rcases hkind with rfl | rfl | rfl
  · exact ⟨_, rfl, fun _ => rfl⟩
  · exact ⟨_, rfl, fun _ => rfl⟩
  · exact ⟨_, rfl, fun _ => rfl⟩

/-- A writable routine is lowered to its definition and to instructions that fill
the sites of its body, unless its body is overfull. -/
theorem settles_routine (settings : Settings) {routine : Routine}
    (hroutine : routine.IsWritable) :
    Settles (BodyOverfull routine.body) (Fills (Site.ofBody routine.body))
      (lowerRoutine settings renderValue routine) := by
  obtain ⟨head, hdefinition, hskip⟩ := definition_eq_ok hroutine
  rw [lowerRoutine, hdefinition]
  refine (settles_body settings hroutine.2.2).map fun blocks hblocks => ?_
  rw [Fills, hskip]
  exact hblocks

end Blockscript
