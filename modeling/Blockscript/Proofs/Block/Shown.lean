import Blockscript.Proofs.Block.Essence
import Blockscript.Proofs.Block.Nesting
import Blockscript.Proofs.Block.Slots
import Blockscript.Proofs.Json.Printing

/-!
What the JSON of a block shows.  The text of a lowered block tells its kind, its names
and its items, with coordinates as they are printed; so it tells the mark that the
block was lowered from.
-/

namespace Blockscript

open Script (Statement Routine)

/-! ### Items -/

section Items

variable {style : Json.Style} {level : Nat}

/-- The rendering of a value tells its essence. -/
theorem same_renderValue_iff {left right : Script.Value} {tag other : String}
    {data shown : Json} (hleft : renderValue left = .ok (tag, data))
    (hright : renderValue right = .ok (other, shown)) :
    tag = other ∧ Json.Same style level data shown ↔ left.essence = right.essence := by
  cases left <;> cases right <;> cases hleft <;> cases hright <;>
    simp [Json.same_ofFields_iff, Json.same_ofString_iff, coordinates, Json.same_number_iff,
      Script.Value.essence]

/-- What the JSON of an item tells: the essence of its value, and its slot. -/
def Item.told (item : Item) : Essence.Value × Nat :=
  (item.value.essence, item.slot.val)

def Item.IsRendered (item : Item) : Prop :=
  renderValue item.value = .ok (item.tag, item.data)

theorem Item.IsRendered.same_iff {item other : Item} (hitem : item.IsRendered)
    (hother : other.IsRendered) :
    Json.Same style level item.toJson other.toJson ↔ item.told = other.told := by
  have hvalues : item.tag = other.tag ∧
      Json.Same style (level + 1 + 1) item.data other.data ↔ _ :=
    same_renderValue_iff hitem hother
  simp only [Item.toJson, Json.same_ofFields_iff, List.forall₂_cons, List.forall₂_nil_left_iff,
    Json.same_ofString_iff, Json.same_natCast_iff, true_and, and_true, Item.told, Prod.mk.injEq,
    hvalues]

theorem same_items_iff {items others : List Item} (hitems : ∀ item ∈ items, item.IsRendered)
    (hothers : ∀ item ∈ others, item.IsRendered) :
    Json.Same style level (.array (items.map Item.toJson)) (.array (others.map Item.toJson)) ↔
      items.map Item.told = others.map Item.told := by
  rw [Json.same_array_iff]
  induction items generalizing others with
  | nil => cases others <;> simp
  | cons item items ih =>
      cases others with
      | nil => simp
      | cons other others =>
          obtain ⟨hitem, hitems⟩ := List.forall_mem_cons.mp hitems
          obtain ⟨hother, hothers⟩ := List.forall_mem_cons.mp hothers
          rw [List.map_cons, List.map_cons, List.forall₂_cons, hitem.same_iff hother,
            ih hitems hothers, List.map_cons, List.map_cons, List.cons.injEq]

end Items

/-! ### Blocks -/

/-- What the JSON of a block tells. -/
inductive Shown where
  | instruction (kind : String) (items : List (Essence.Value × Nat))
      (action target inverted subAction : String)
  | event (name : String)
  | function (name : String)
  | process (name : String)
  | functionCall (name : String)
  | processCall (name : String)
  | bracket (direction : Bracket.Direction)

/-- A block as it is lowered, with the template of process calls, and what its JSON
tells. -/
inductive Block.Shows (template : Option String) : Block → Shown → Prop
  | instruction {kind action target inverted subAction : String} {items : List Item}
      (hitems : ∀ item ∈ items, item.IsRendered) :
      Shows template (.instruction { kind, items, action, target, inverted, subAction })
        (.instruction kind (items.map Item.told) action target inverted subAction)
  | event (name : String) : Shows template (.event name) (.event name)
  | function (name : String) : Shows template (.function name) (.function name)
  | process (name : String) : Shows template (.process name) (.process name)
  | functionCall (name : String) : Shows template (.functionCall name) (.functionCall name)
  | processCall (name : String) :
      Shows template (.processCall name template) (.processCall name)
  | bracket (direction : Bracket.Direction) :
      Shows template (.bracket direction .normal) (.bracket direction)

theorem Block.shows_instruction {template : Option String} {content : Instruction}
    {told : List (Essence.Value × Nat)} (hitems : ∀ item ∈ content.items, item.IsRendered)
    (htold : content.items.map Item.told = told) (hdata : content.data = "") :
    (Block.instruction content).Shows template (.instruction content.kind told content.action
      content.target content.inverted content.subAction) := by
  obtain ⟨kind, items, action, data, target, inverted, subAction⟩ := content
  dsimp only at htold hdata
  subst htold hdata
  exact .instruction hitems

theorem direction_word_inj {left right : Bracket.Direction} :
    left.word = right.word ↔ left = right := by
  cases left <;> cases right <;> simp [Bracket.Direction.word]

/-- Blocks have the same text exactly when it tells the same. -/
theorem Block.Shows.same_iff {template : Option String} {left right : Block}
    {shown other : Shown} (hleft : left.Shows template shown) (hright : right.Shows template other)
    (payload : Json) {style : Json.Style} {level : Nat} :
    Json.Same style level (left.json payload) (right.json payload) ↔ shown = other := by
  cases hleft with
  | instruction hitems =>
      cases hright with
      | instruction hothers =>
          simp [Block.json, Instruction.toJson, argumentsJson, Json.same_ofFields_iff,
            Json.same_ofString_iff, same_items_iff hitems hothers]
      | _ =>
          simp [Block.json, Instruction.toJson, definitionJson, Json.same_ofFields_iff]
  | bracket direction =>
      cases hright <;>
        simp [Block.json, Instruction.toJson, definitionJson, Json.same_ofFields_iff,
          Json.same_ofString_iff, direction_word_inj]
  | _ =>
      cases hright <;>
        simp [Block.json, Instruction.toJson, definitionJson, Json.same_ofFields_iff,
          Json.same_ofString_iff]

/-! ### Marks -/

namespace Essence

/-- What the JSON of the block of a mark tells under the settings.  Only known marks have
blocks; what stands for the others does not matter. -/
def Mark.shown (settings : Settings) : Mark → Shown
  | .definition .event name => .event name
  | .definition .function name => .function name
  | .definition .process name => .process name
  | .definition (.other _) name => .function name
  | .leaf (.action subject name arguments) =>
      .instruction (actionWord subject) arguments.zipIdx name settings.defaultTarget "" ""
  | .leaf (.assignment target action arguments) =>
      .instruction "set_var" ((target, 0) :: arguments.zipIdx 1) action "" "" ""
  | .leaf (.call name true) => .processCall name
  | .leaf (.call name false) => .functionCall name
  | .leaf (.stray _) => .bracket .opening
  | .head (.condition subject name arguments negated) =>
      .instruction (conditionWord subject) arguments.zipIdx name settings.defaultTarget
        (if negated then "NOT" else "") ""
  | .head (.variableCondition target name arguments) =>
      .instruction "if_var" ((target, 0) :: arguments.zipIdx 1) name "" "" ""
  | .head .otherwise => .instruction "else" [] "" settings.defaultTarget "" ""
  | .step taken =>
      .instruction "select_obj" (taken.arguments.zipIdx 1) taken.action "" "" taken.subAction
  | .bracket direction => .bracket direction

/-- The mark that an instruction was lowered from, told by its kind. -/
def Mark.ofInstruction? (kind : String) (items : List (Value × Nat))
    (action inverted subAction : String) : Option Mark :=
  let values := items.map Prod.fst
  match kind with
  | "player_action" => some (.leaf (.action .player action values))
  | "entity_action" => some (.leaf (.action .entity action values))
  | "game_action" => some (.leaf (.action .plot action values))
  | "if_player" => some (.head (.condition .player action values (inverted == "NOT")))
  | "if_entity" => some (.head (.condition .entity action values (inverted == "NOT")))
  | "if_game" => some (.head (.condition .plot action values (inverted == "NOT")))
  | "set_var" => values.head?.map fun target => .leaf (.assignment target action values.tail)
  | "if_var" => values.head?.map fun target => .head (.variableCondition target action values.tail)
  | "else" => some (.head .otherwise)
  | "select_obj" => some (.step ⟨action, subAction, values⟩)
  | _ => none

def Mark.ofShown? : Shown → Option Mark
  | .instruction kind items action _ inverted subAction =>
      Mark.ofInstruction? kind items action inverted subAction
  | .event name => some (.definition .event name)
  | .function name => some (.definition .function name)
  | .process name => some (.definition .process name)
  | .functionCall name => some (.leaf (.call name false))
  | .processCall name => some (.leaf (.call name true))
  | .bracket direction => some (.bracket direction)

/-- A mark whose words are known. -/
def Mark.IsKnown : Mark → Prop
  | .definition kind _ => kind ∈ [.event, .function, .process]
  | .leaf (.action subject _ _) => subject.IsWritable
  | .leaf (.stray _) => False
  | .head (.condition subject _ _ _) => subject.IsWritable
  | _ => True

/-- A known mark is told by what is shown. -/
theorem Mark.IsKnown.ofShown?_shown {mark : Mark} (hmark : mark.IsKnown) (settings : Settings) :
    Mark.ofShown? (mark.shown settings) = some mark := by
  cases mark with
  | definition kind name =>
      simp only [Mark.IsKnown, List.mem_cons, List.not_mem_nil, or_false] at hmark
      rcases hmark with rfl | rfl | rfl <;> rfl
  | leaf leaf =>
      cases leaf with
      | action subject name arguments =>
          simp only [Mark.IsKnown, Script.Subject.IsWritable, List.mem_cons, List.not_mem_nil,
            or_false] at hmark
          rcases hmark with rfl | rfl | rfl <;>
            simp [Mark.shown, actionWord, Mark.ofShown?, Mark.ofInstruction?]
      | assignment target action arguments =>
          simp [Mark.shown, Mark.ofShown?, Mark.ofInstruction?]
      | call name process => cases process <;> rfl
      | stray what => exact hmark.elim
  | head head =>
      cases head with
      | condition subject name arguments negated =>
          simp only [Mark.IsKnown, Script.Subject.IsWritable, List.mem_cons, List.not_mem_nil,
            or_false] at hmark
          rcases hmark with rfl | rfl | rfl <;> cases negated <;>
            simp [Mark.shown, conditionWord, Mark.ofShown?, Mark.ofInstruction?]
      | variableCondition target name arguments =>
          simp [Mark.shown, Mark.ofShown?, Mark.ofInstruction?]
      | otherwise => rfl
  | step step => simp [Mark.shown, Mark.ofShown?, Mark.ofInstruction?]
  | bracket direction => rfl

end Essence

/-! ### Lowered blocks -/

theorem Settles.of_ok {α : Type} {overfull : Prop} {P : α → Prop} {result : Except Fault α}
    (h : Settles overfull P result) {a : α} (hok : result = .ok a) : P a := by
  rcases h with ⟨-, herror⟩ | ⟨-, b, hb, hP⟩
  · rw [hok] at herror
    contradiction
  · obtain rfl : a = b := Except.ok.inj (hok.symm.trans hb)
    exact hP

theorem Holds.told {values : List Script.Value} {first : Nat} {items : List Item}
    (h : Holds values first items) :
    items.map Item.told = (values.map Script.Value.essence).zipIdx first := by
  rw [List.zipIdx_eq_zip_range', List.length_map, ← h.slots, ← h.order, List.map_map,
    List.zip_map']
  rfl

/-- A block that was lowered from a mark. -/
structure Marked (settings : Settings) (mark : Essence.Mark) (block : Block) : Prop where
  known : mark.IsKnown
  shows : block.Shows settings.processTemplatePath (mark.shown settings)

section Lowered

variable (settings : Settings)

theorem marked_step {step : Script.Step} (hstep : step.IsWritable) {block : Block}
    (h : lowerStep renderValue step = .ok block) : Marked settings (.step step.essence) block := by
  obtain ⟨items, hrow, h⟩ := bind_eq_ok h
  cases h
  have hitems := (settles_arguments_behind hstep.2.2).of_ok hrow
  have hsubAction : Text.capitalize
      (if step.subAction = placeholderSubAction then "" else step.subAction) =
      step.essence.subAction := apply_ite Text.capitalize _ _ _
  rw [hsubAction]
  exact ⟨trivial, Block.shows_instruction hitems.rendered hitems.told rfl⟩

theorem marked_steps {steps : List Script.Step} (hsteps : ∀ step ∈ steps, step.IsWritable)
    {blocks : List Block} (h : lowerSteps renderValue steps = .ok blocks) :
    List.Forall₂ (Marked settings) ((steps.map Script.Step.essence).map .step) blocks := by
  induction steps generalizing blocks with
  | nil =>
      cases h
      exact .nil
  | cons step steps ih =>
      obtain ⟨hstep, hsteps⟩ := List.forall_mem_cons.mp hsteps
      obtain ⟨block, hblock, h⟩ := bind_eq_ok h
      obtain ⟨more, hmore, h⟩ := bind_eq_ok h
      cases h
      exact .cons (marked_step settings hstep hblock) (ih hsteps hmore)

/-- The items of an instruction with a variable tell the variable and the arguments. -/
theorem told_rowAfter {target : Script.Value} {arguments : List Script.Value}
    (htarget : target.IsWritableReference)
    (harguments : ∀ value ∈ arguments, value.IsWritable) {items : List Item}
    (h : Item.rowAfter renderValue target arguments = .ok items) :
    (∀ item ∈ items, item.IsRendered) ∧
      items.map Item.told =
        (target.essence, 0) :: (arguments.map Script.Value.essence).zipIdx 1 := by
  obtain ⟨subject, rest, rfl, hsubject, -, hrest⟩ :=
    (settles_rowAfter htarget harguments).of_ok h
  refine ⟨List.forall_mem_cons.mpr ⟨?_, hrest.rendered⟩, ?_⟩
  · exact hsubject.rendered subject List.mem_cons_self
  · rw [List.map_cons, hrest.told]
    exact congrArg (· :: _) (List.cons.inj hsubject.told).1

/-- A region of blocks that were lowered from marks. -/
theorem marked_wrap {head : Essence.Head} {block : Block} {marks : List Essence.Mark}
    {inner : List Block} (hblock : Marked settings (.head head) block)
    (hinner : List.Forall₂ (Marked settings) marks inner) :
    List.Forall₂ (Marked settings)
      (.head head :: .bracket .opening :: (marks ++ [.bracket .closing]))
      (Block.wrap .normal block inner) := by
  have hbracket : ∀ direction,
      Marked settings (.bracket direction) (.bracket direction .normal) :=
    fun direction => ⟨trivial, .bracket direction⟩
  exact .cons hblock (.cons (hbracket .opening)
    (List.rel_append hinner (.cons (hbracket .closing) .nil)))

theorem capitalize_operator {operator : String} (hoperator : Script.IsOperator operator) :
    Text.capitalize operator = operator := by
  simp only [Script.IsOperator, List.mem_cons, List.not_mem_nil, or_false] at hoperator
  rcases hoperator with rfl | rfl | rfl | rfl | rfl | rfl <;> decide

mutual

/-- The blocks of a statement were lowered from the marks of its essence. -/
theorem marked_statement : {statement : Statement} → statement.IsWritable →
    {blocks : List Block} → lowerStatement settings renderValue statement = .ok blocks →
    List.Forall₂ (Marked settings) statement.essence.marks blocks
  | .action subject name arguments, ⟨hsubject, _, harguments⟩, blocks, h => by
      obtain ⟨kind, hkind, h⟩ := bind_eq_ok h
      obtain rfl := Except.ok.inj (hkind.symm.trans (kinds_eq_ok hsubject).1)
      obtain ⟨items, hrow, h⟩ := bind_eq_ok h
      cases h
      have hitems := (settles_arguments harguments).of_ok hrow
      exact .cons ⟨hsubject, Block.shows_instruction hitems.rendered hitems.told rfl⟩ .nil
  | .assignment target operator verb arguments, ⟨htarget, hoperator, _, harguments⟩, blocks,
      h => by
      obtain ⟨items, hrow, h⟩ := bind_eq_ok h
      cases h
      obtain ⟨hitems, htold⟩ := told_rowAfter htarget harguments hrow
      have haction : Text.capitalize (if verb = placeholderVerb then operator else verb) =
          if verb = placeholderVerb then operator else Text.capitalize verb := by
        rw [apply_ite Text.capitalize, capitalize_operator hoperator]
      rw [haction]
      exact .cons ⟨trivial, Block.shows_instruction hitems htold rfl⟩ .nil
  | .condition subject name arguments body negated,
      ⟨hsubject, _, _, harguments, hbody⟩, blocks, h => by
      obtain ⟨kind, hkind, h⟩ := bind_eq_ok h
      obtain rfl := Except.ok.inj (hkind.symm.trans (kinds_eq_ok hsubject).2)
      obtain ⟨items, hrow, h⟩ := bind_eq_ok h
      obtain ⟨inner, hinner, h⟩ := bind_eq_ok h
      cases h
      have hitems := (settles_arguments harguments).of_ok hrow
      exact marked_wrap settings
        ⟨hsubject, Block.shows_instruction hitems.rendered hitems.told rfl⟩
        (marked_body hbody hinner)
  | .variableCondition target operator name arguments body,
      ⟨htarget, _, _, harguments, hbody⟩, blocks, h => by
      obtain ⟨items, hrow, h⟩ := bind_eq_ok h
      obtain ⟨inner, hinner, h⟩ := bind_eq_ok h
      cases h
      obtain ⟨hitems, htold⟩ := told_rowAfter htarget harguments hrow
      exact marked_wrap settings ⟨trivial, Block.shows_instruction hitems htold rfl⟩
        (marked_body hbody hinner)
  | .otherwise body, hbody, blocks, h => by
      obtain ⟨inner, hinner, h⟩ := bind_eq_ok h
      cases h
      exact marked_wrap settings
        ⟨trivial, Block.shows_instruction (List.forall_mem_nil _) rfl rfl⟩
        (marked_body hbody hinner)
  | .selection steps body, ⟨_, hsteps, hbody⟩, blocks, h => by
      obtain ⟨selected, hselected, h⟩ := bind_eq_ok h
      obtain ⟨inner, hinner, h⟩ := bind_eq_ok h
      cases h
      have hreset : Marked settings (.step .reset) resetSelection :=
        ⟨trivial, Block.shows_instruction (List.forall_mem_nil _) rfl rfl⟩
      exact List.rel_append (List.rel_append (marked_steps settings hsteps hselected)
        (marked_body hbody hinner)) (.cons hreset .nil)
  | .call name true, _, blocks, h => by
      cases h
      exact .cons ⟨trivial, .processCall name⟩ .nil
  | .call name false, _, blocks, h => by
      cases h
      exact .cons ⟨trivial, .functionCall name⟩ .nil
  | .stray _, h, _, _ => h.elim

theorem marked_body : {body : List Statement} → Script.BodyIsWritable body →
    {blocks : List Block} → lowerBody settings renderValue body = .ok blocks →
    List.Forall₂ (Marked settings) (Essence.bodyMarks (Script.essenceOfBody body)) blocks
  | [], _, blocks, h => by
      cases h
      exact .nil
  | statement :: statements, ⟨hstatement, hrest⟩, blocks, h => by
      obtain ⟨first, hfirst, h⟩ := bind_eq_ok h
      obtain ⟨more, hmore, h⟩ := bind_eq_ok h
      cases h
      exact List.rel_append (marked_statement hstatement hfirst) (marked_body hrest hmore)

end

/-- The blocks of a routine were lowered from the marks of its essence. -/
theorem marked_routine {routine : Routine} (hroutine : routine.IsWritable) {blocks : List Block}
    (h : lowerRoutine settings renderValue routine = .ok blocks) :
    List.Forall₂ (Marked settings) routine.essence.marks blocks := by
  obtain ⟨head, hhead, h⟩ := bind_eq_ok h
  obtain ⟨body, hbody, h⟩ := bind_eq_ok h
  cases h
  refine .cons ?_ (marked_body settings hroutine.2.2 hbody)
  obtain ⟨kind, name, statements, line, column⟩ := routine
  obtain ⟨hkind, -, -⟩ := hroutine
  simp only [List.mem_cons, List.not_mem_nil, or_false] at hkind
  rcases hkind with rfl | rfl | rfl <;> cases hhead
  · exact ⟨by simp [Essence.Mark.IsKnown, Routine.essence], .event _⟩
  · exact ⟨by simp [Essence.Mark.IsKnown, Routine.essence], .function _⟩
  · exact ⟨by simp [Essence.Mark.IsKnown, Routine.essence], .process _⟩

/-- Lowered blocks have the same text exactly when they were lowered from the same
mark. -/
theorem Marked.same_iff {mark other : Essence.Mark} {block found : Block}
    (hblock : Marked settings mark block) (hfound : Marked settings other found)
    (payload : Json) {style : Json.Style} {level : Nat} :
    Json.Same style level (block.json payload) (found.json payload) ↔ mark = other := by
  rw [hblock.shows.same_iff hfound.shows]
  constructor
  · intro h
    have hmarks := congrArg Essence.Mark.ofShown? h
    rw [hblock.known.ofShown?_shown, hfound.known.ofShown?_shown] at hmarks
    exact Option.some.inj hmarks
  · rintro rfl
    rfl

end Lowered

end Blockscript
