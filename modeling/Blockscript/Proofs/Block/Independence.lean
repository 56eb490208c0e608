import Blockscript.Proofs.Block.Nesting

/-!
What lowering takes from the settings and from the rendering of values: the target of
some instructions, the template of process calls, and the tags and data of items.
Without these the blocks of a routine are the same whatever the settings and the
rendering are.
-/

namespace Blockscript

open Script (Value Step Statement Routine)

/-! ### Bare blocks -/

/-- An item without its tag and its data. -/
def Item.bare (item : Item) : Item :=
  { item with tag := "", data := .null }

/-- An instruction with bare items and without its target. -/
def Instruction.bare (content : Instruction) : Instruction :=
  { content with items := content.items.map Item.bare, target := "" }

/-- A block without what the settings and the rendering put into it. -/
def Block.bare : Block → Block
  | .instruction content => .instruction content.bare
  | .processCall name _ kind => .processCall name none kind
  | block => block

/-! ### What is put into blocks -/

def targetedKinds : List String :=
  ["player_action", "entity_action", "game_action", "if_player", "if_entity", "if_game", "else"]

/-- The kinds of instruction that have a variable in their first slot. -/
def variableKinds : List String :=
  ["set_var", "if_var"]

/-- An item with the data that its value is rendered to.  It has the tag of the
rendering too, unless it is the variable of an instruction. -/
def Item.Obeys (render : Renderer) (kind : String) (item : Item) : Prop :=
  ∃ tag, render item.value = .ok (tag, item.data) ∧
    item.tag = if kind ∈ variableKinds ∧ item.slot.val = 0 then "var" else tag

/-- An instruction with the target of the settings, if its kind has one, and with
items as they are rendered. -/
structure Instruction.Obeys (settings : Settings) (render : Renderer) (content : Instruction) :
    Prop where
  target : content.target = if content.kind ∈ targetedKinds then settings.defaultTarget else ""
  items : ∀ item ∈ content.items, item.Obeys render content.kind

/-- A block with what the settings and the rendering put into it. -/
def Block.Obeys (settings : Settings) (render : Renderer) : Block → Prop
  | .instruction content => content.Obeys settings render
  | .processCall _ template _ => template = settings.processTemplatePath
  | .formless => False
  | _ => True

section Obeys

variable {settings : Settings} {render : Renderer}

theorem exists_of_make {value : Value} {slot : Int} {item : Item}
    (h : Item.make render value slot = .ok item) :
    ∃ tag data place, Item.slotOf slot = .ok place ∧ render value = .ok (tag, data) ∧
      item = { tag, slot := place, value, data } := by
  obtain ⟨place, hplace, h⟩ := bind_eq_ok h
  obtain ⟨⟨tag, data⟩, hrender, h⟩ := bind_eq_ok h
  cases h
  exact ⟨tag, data, place, hplace, hrender, rfl⟩

/-- Behind the first slot there is no first slot. -/
theorem slot_ne_zero {slot : Int} (hslot : 1 ≤ slot) {place : Slot}
    (h : Item.slotOf slot = .ok place) : place.val ≠ 0 := by
  unfold Item.slotOf at h
  split at h
  · cases h
    dsimp only
    omega
  · contradiction

/-- The arguments of an instruction are tagged as they are rendered, since none of them
is in the slot of a variable. -/
theorem obeys_row {kind : String} {values : List Value} {slot : Int} {items : List Item}
    (h : Item.row render values slot = .ok items) (hkind : kind ∉ variableKinds ∨ 1 ≤ slot) :
    ∀ item ∈ items, item.Obeys render kind := by
  induction values generalizing slot items with
  | nil =>
      cases h
      exact List.forall_mem_nil _
  | cons value values ih =>
      obtain ⟨item, hmake, h⟩ := bind_eq_ok h
      obtain ⟨more, hmore, h⟩ := bind_eq_ok h
      cases h
      refine List.forall_mem_cons.mpr ⟨?_, ih hmore (hkind.imp_right fun hslot => by omega)⟩
      obtain ⟨tag, data, place, hplace, hrender, rfl⟩ := exists_of_make hmake
      refine ⟨tag, hrender, (if_neg ?_).symm⟩
      rintro ⟨hvariable, hzero⟩
      rcases hkind with hkind | hslot
      · exact hkind hvariable
      · exact slot_ne_zero hslot hplace hzero

theorem obeys_rowAfter {kind : String} {target : Value} {values : List Value}
    {items : List Item} (h : Item.rowAfter render target values = .ok items)
    (hkind : kind ∈ variableKinds) : ∀ item ∈ items, item.Obeys render kind := by
  obtain ⟨first, hfirst, h⟩ := bind_eq_ok h
  obtain ⟨more, hmore, h⟩ := bind_eq_ok h
  obtain ⟨⟨tag, data⟩, hrender, hfirst⟩ := bind_eq_ok hfirst
  cases h
  cases hfirst
  refine List.forall_mem_cons.mpr ⟨⟨tag, hrender, ?_⟩, obeys_row hmore (.inr (Int.le_refl 1))⟩
  exact (if_pos ⟨hkind, rfl⟩).symm

theorem obeys_steps {steps : List Step} {blocks : List Block}
    (h : lowerSteps render steps = .ok blocks) :
    ∀ block ∈ blocks, block.Obeys settings render := by
  induction steps generalizing blocks with
  | nil =>
      cases h
      exact List.forall_mem_nil _
  | cons step steps ih =>
      obtain ⟨block, hblock, h⟩ := bind_eq_ok h
      obtain ⟨more, hmore, h⟩ := bind_eq_ok h
      obtain ⟨items, hitems, hblock⟩ := bind_eq_ok hblock
      cases h
      cases hblock
      refine List.forall_mem_cons.mpr ⟨⟨rfl, ?_⟩, ih hmore⟩
      exact obeys_row hitems (.inr (Int.le_refl 1))

/-- Brackets take nothing from the settings. -/
theorem obeys_wrap {head : Block} {inner : List Block} (hhead : head.Obeys settings render)
    (hinner : ∀ block ∈ inner, block.Obeys settings render) :
    ∀ block ∈ Block.wrap .normal head inner, block.Obeys settings render := by
  intro block hblock
  simp only [Block.wrap, List.cons_append, List.mem_cons, List.mem_append, List.not_mem_nil,
    or_false] at hblock
  rcases hblock with rfl | rfl | hblock | rfl
  · exact hhead
  · trivial
  · exact hinner block hblock
  · trivial

theorem not_mem_variableKinds {kind : String} (hkind : kind ∈ targetedKinds) :
    kind ∉ variableKinds := by
  have hall : ∀ kind ∈ targetedKinds, kind ∉ variableKinds := by decide
  exact hall kind hkind

theorem obeys_targeted {content : Instruction} {arguments : List Value}
    (hkind : content.kind ∈ targetedKinds) (htarget : content.target = settings.defaultTarget)
    (hitems : Item.row render arguments 0 = .ok content.items) :
    content.Obeys settings render where
  target := by rw [if_pos hkind, htarget]
  items := obeys_row hitems (.inl (not_mem_variableKinds hkind))

/-- Actions and conditions are targeted, whatever their subject. -/
theorem mem_targetedKinds {kinds : SubjectKinds}
    (hkinds : kinds = actionKinds ∨ kinds = conditionKinds) {subject : Script.Subject}
    {kind : String} (h : kinds.of subject = .ok kind) : kind ∈ targetedKinds := by
  rcases hkinds with rfl | rfl <;>
    rcases SubjectKinds.eq_or_eq_or_eq h with rfl | rfl | rfl <;> decide

mutual

/-- The blocks of a statement have in them what the settings and the rendering say. -/
theorem obeys_statement : {statement : Statement} → {blocks : List Block} →
    lowerStatement settings render statement = .ok blocks →
    ∀ block ∈ blocks, block.Obeys settings render
  | .action _ _ _, _, h => by
      obtain ⟨kind, hkind, h⟩ := bind_eq_ok h
      obtain ⟨items, hitems, h⟩ := bind_eq_ok h
      cases h
      exact List.forall_mem_singleton.mpr
        (obeys_targeted (mem_targetedKinds (.inl rfl) hkind) rfl hitems)
  | .assignment _ _ _ _, _, h => by
      obtain ⟨items, hitems, h⟩ := bind_eq_ok h
      cases h
      exact List.forall_mem_singleton.mpr ⟨rfl, obeys_rowAfter hitems List.mem_cons_self⟩
  | .condition _ _ _ _ _, _, h => by
      obtain ⟨kind, hkind, h⟩ := bind_eq_ok h
      obtain ⟨items, hitems, h⟩ := bind_eq_ok h
      obtain ⟨inner, hinner, h⟩ := bind_eq_ok h
      cases h
      exact obeys_wrap (obeys_targeted (mem_targetedKinds (.inr rfl) hkind) rfl hitems)
        (obeys_body hinner)
  | .variableCondition _ _ _ _ _, _, h => by
      obtain ⟨items, hitems, h⟩ := bind_eq_ok h
      obtain ⟨inner, hinner, h⟩ := bind_eq_ok h
      cases h
      have hkind : "if_var" ∈ variableKinds := List.mem_cons_of_mem _ List.mem_cons_self
      exact obeys_wrap ⟨rfl, obeys_rowAfter hitems hkind⟩ (obeys_body hinner)
  | .otherwise _, _, h => by
      obtain ⟨inner, hinner, h⟩ := bind_eq_ok h
      cases h
      exact obeys_wrap ⟨rfl, List.forall_mem_nil _⟩ (obeys_body hinner)
  | .selection _ _, _, h => by
      obtain ⟨selected, hselected, h⟩ := bind_eq_ok h
      obtain ⟨inner, hinner, h⟩ := bind_eq_ok h
      cases h
      have hreset : resetSelection.Obeys settings render := ⟨rfl, List.forall_mem_nil _⟩
      exact List.forall_mem_append.mpr ⟨List.forall_mem_append.mpr
        ⟨obeys_steps hselected, obeys_body hinner⟩, List.forall_mem_singleton.mpr hreset⟩
  | .call _ true, _, h => by
      cases h
      exact List.forall_mem_singleton.mpr rfl
  | .call _ false, _, h => by
      cases h
      exact List.forall_mem_singleton.mpr trivial
  | .stray _, _, h => by contradiction

theorem obeys_body : {body : List Statement} → {blocks : List Block} →
    lowerBody settings render body = .ok blocks →
    ∀ block ∈ blocks, block.Obeys settings render
  | [], _, h => by
      cases h
      exact List.forall_mem_nil _
  | _ :: _, _, h => by
      obtain ⟨blocks, hblocks, h⟩ := bind_eq_ok h
      obtain ⟨more, hmore, h⟩ := bind_eq_ok h
      cases h
      exact List.forall_mem_append.mpr ⟨obeys_statement hblocks, obeys_body hmore⟩

end

theorem obeys_routine {routine : Routine} {blocks : List Block}
    (h : lowerRoutine settings render routine = .ok blocks) :
    ∀ block ∈ blocks, block.Obeys settings render := by
  obtain ⟨head, hhead, h⟩ := bind_eq_ok h
  obtain ⟨body, hbody, h⟩ := bind_eq_ok h
  cases h
  refine List.forall_mem_cons.mpr ⟨?_, obeys_body hbody⟩
  unfold definition at hhead
  split at hhead <;> cases hhead <;> trivial

end Obeys

/-! ### Bare blocks are the same -/

def Renderer.ofTotal (render : Value → String × Json) : Renderer :=
  fun value => .ok (render value)

section Bare

variable {settings : Settings} {render : Renderer} (other : Settings)
  (shown : Value → String × Json)

theorem exists_row_bare {values : List Value} {slot : Int} {items : List Item}
    (h : Item.row render values slot = .ok items) :
    ∃ others, Item.row (.ofTotal shown) values slot = .ok others ∧
      others.map Item.bare = items.map Item.bare := by
  induction values generalizing slot items with
  | nil =>
      cases h
      exact ⟨[], rfl, rfl⟩
  | cons value values ih =>
      obtain ⟨item, hmake, h⟩ := bind_eq_ok h
      obtain ⟨more, hmore, h⟩ := bind_eq_ok h
      cases h
      obtain ⟨tag, data, place, hplace, -, rfl⟩ := exists_of_make hmake
      obtain ⟨others, hothers, hbare⟩ := ih hmore
      refine ⟨⟨(shown value).1, place, value, (shown value).2⟩ :: others, ?_, ?_⟩
      · rw [Item.row, Item.make, hplace, hothers]
        rfl
      · rw [List.map_cons, List.map_cons, hbare]
        rfl

theorem exists_rowAfter_bare {target : Value} {values : List Value} {items : List Item}
    (h : Item.rowAfter render target values = .ok items) :
    ∃ others, Item.rowAfter (.ofTotal shown) target values = .ok others ∧
      others.map Item.bare = items.map Item.bare := by
  obtain ⟨first, hfirst, h⟩ := bind_eq_ok h
  obtain ⟨more, hmore, h⟩ := bind_eq_ok h
  obtain ⟨⟨tag, data⟩, -, hfirst⟩ := bind_eq_ok hfirst
  cases h
  cases hfirst
  obtain ⟨others, hothers, hbare⟩ := exists_row_bare shown hmore
  refine ⟨⟨"var", 0, target, (shown target).2⟩ :: others, ?_, ?_⟩
  · rw [Item.rowAfter, hothers]
    rfl
  · rw [List.map_cons, List.map_cons, hbare]
    rfl

theorem exists_steps_bare {steps : List Step} {blocks : List Block}
    (h : lowerSteps render steps = .ok blocks) :
    ∃ others, lowerSteps (.ofTotal shown) steps = .ok others ∧
      others.map Block.bare = blocks.map Block.bare := by
  induction steps generalizing blocks with
  | nil =>
      cases h
      exact ⟨[], rfl, rfl⟩
  | cons step steps ih =>
      obtain ⟨block, hblock, h⟩ := bind_eq_ok h
      obtain ⟨more, hmore, h⟩ := bind_eq_ok h
      obtain ⟨items, hitems, hblock⟩ := bind_eq_ok hblock
      cases h
      cases hblock
      obtain ⟨placed, hplaced, hbareItems⟩ := exists_row_bare shown hitems
      obtain ⟨others, hothers, hbare⟩ := ih hmore
      rw [lowerSteps, lowerStep, hplaced, hothers]
      refine ⟨_, rfl, ?_⟩
      simp only [List.map_cons, Block.bare, Instruction.bare, hbareItems, hbare]

theorem map_bare_wrap (shape : Bracket.Shape) (head : Block) (inner : List Block) :
    (Block.wrap shape head inner).map Block.bare =
      Block.wrap shape head.bare (inner.map Block.bare) := by
  simp [Block.wrap, Block.bare]

mutual

/-- A statement that can be lowered can be lowered with any settings and any total
rendering, to the same bare blocks. -/
theorem exists_statement_bare : {statement : Statement} → {blocks : List Block} →
    lowerStatement settings render statement = .ok blocks →
    ∃ others, lowerStatement other (.ofTotal shown) statement = .ok others ∧
      others.map Block.bare = blocks.map Block.bare
  | .action _ _ _, _, h => by
      obtain ⟨kind, hkind, h⟩ := bind_eq_ok h
      obtain ⟨items, hitems, h⟩ := bind_eq_ok h
      cases h
      obtain ⟨placed, hplaced, hbare⟩ := exists_row_bare shown hitems
      rw [lowerStatement, hkind, hplaced]
      refine ⟨_, rfl, ?_⟩
      simp only [List.map_cons, List.map_nil, Block.bare, Instruction.bare, hbare]
  | .assignment _ _ _ _, _, h => by
      obtain ⟨items, hitems, h⟩ := bind_eq_ok h
      cases h
      obtain ⟨placed, hplaced, hbare⟩ := exists_rowAfter_bare shown hitems
      rw [lowerStatement, hplaced]
      refine ⟨_, rfl, ?_⟩
      simp only [List.map_cons, List.map_nil, Block.bare, Instruction.bare, hbare]
  | .condition _ _ _ _ _, _, h => by
      obtain ⟨kind, hkind, h⟩ := bind_eq_ok h
      obtain ⟨items, hitems, h⟩ := bind_eq_ok h
      obtain ⟨inner, hinner, h⟩ := bind_eq_ok h
      cases h
      obtain ⟨placed, hplaced, hbare⟩ := exists_row_bare shown hitems
      obtain ⟨nested, hnested, hbareInner⟩ := exists_body_bare hinner
      rw [lowerStatement, hkind, hplaced, hnested]
      refine ⟨_, rfl, ?_⟩
      simp only [map_bare_wrap, Block.bare, Instruction.bare, hbare, hbareInner]
  | .variableCondition _ _ _ _ _, _, h => by
      obtain ⟨items, hitems, h⟩ := bind_eq_ok h
      obtain ⟨inner, hinner, h⟩ := bind_eq_ok h
      cases h
      obtain ⟨placed, hplaced, hbare⟩ := exists_rowAfter_bare shown hitems
      obtain ⟨nested, hnested, hbareInner⟩ := exists_body_bare hinner
      rw [lowerStatement, hplaced, hnested]
      refine ⟨_, rfl, ?_⟩
      simp only [map_bare_wrap, Block.bare, Instruction.bare, hbare, hbareInner]
  | .otherwise _, _, h => by
      obtain ⟨inner, hinner, h⟩ := bind_eq_ok h
      cases h
      obtain ⟨nested, hnested, hbareInner⟩ := exists_body_bare hinner
      rw [lowerStatement, hnested]
      refine ⟨_, rfl, ?_⟩
      simp only [map_bare_wrap, Block.bare, Instruction.bare, hbareInner]
  | .selection _ _, _, h => by
      obtain ⟨selected, hselected, h⟩ := bind_eq_ok h
      obtain ⟨inner, hinner, h⟩ := bind_eq_ok h
      cases h
      obtain ⟨taken, htaken, hbare⟩ := exists_steps_bare shown hselected
      obtain ⟨nested, hnested, hbareInner⟩ := exists_body_bare hinner
      rw [lowerStatement, htaken, hnested]
      refine ⟨_, rfl, ?_⟩
      simp only [List.map_append, hbare, hbareInner]
  | .call _ true, _, h => by
      cases h
      exact ⟨_, rfl, rfl⟩
  | .call _ false, _, h => by
      cases h
      exact ⟨_, rfl, rfl⟩
  | .stray _, _, h => by contradiction

theorem exists_body_bare : {body : List Statement} → {blocks : List Block} →
    lowerBody settings render body = .ok blocks →
    ∃ others, lowerBody other (.ofTotal shown) body = .ok others ∧
      others.map Block.bare = blocks.map Block.bare
  | [], _, h => by
      cases h
      exact ⟨[], rfl, rfl⟩
  | _ :: _, _, h => by
      obtain ⟨blocks, hblocks, h⟩ := bind_eq_ok h
      obtain ⟨more, hmore, h⟩ := bind_eq_ok h
      cases h
      obtain ⟨others, hothers, hbare⟩ := exists_statement_bare hblocks
      obtain ⟨rest, hrest, hbareRest⟩ := exists_body_bare hmore
      rw [lowerBody, hothers, hrest]
      refine ⟨_, rfl, ?_⟩
      rw [List.map_append, List.map_append, hbare, hbareRest]

end

theorem exists_routine_bare {routine : Routine} {blocks : List Block}
    (h : lowerRoutine settings render routine = .ok blocks) :
    ∃ others, lowerRoutine other (.ofTotal shown) routine = .ok others ∧
      others.map Block.bare = blocks.map Block.bare := by
  obtain ⟨head, hhead, h⟩ := bind_eq_ok h
  obtain ⟨body, hbody, h⟩ := bind_eq_ok h
  cases h
  obtain ⟨others, hothers, hbare⟩ := exists_body_bare other shown hbody
  rw [lowerRoutine, hhead, hothers]
  refine ⟨_, rfl, ?_⟩
  rw [List.map_cons, List.map_cons, hbare]

end Bare

/-- The settings and the rendering touch only what is theirs.  A routine that can be
lowered is lowered, with any two settings and any two total renderings, to blocks that
are the same when they are bare; and each of the two puts into them the target, the
template, the tags and the data that its own settings and rendering give. -/
theorem lowerRoutine_bare_eq {settings : Settings} {render : Renderer} {routine : Routine}
    {blocks : List Block} (h : lowerRoutine settings render routine = .ok blocks)
    (first second : Settings) (shown told : Value → String × Json) :
    ∃ left right, lowerRoutine first (.ofTotal shown) routine = .ok left ∧
      lowerRoutine second (.ofTotal told) routine = .ok right ∧
      left.length = right.length ∧ left.map Block.bare = right.map Block.bare ∧
      (∀ block ∈ left, block.Obeys first (.ofTotal shown)) ∧
      ∀ block ∈ right, block.Obeys second (.ofTotal told) := by
  obtain ⟨left, hleft, hbareLeft⟩ := exists_routine_bare first shown h
  obtain ⟨right, hright, hbareRight⟩ := exists_routine_bare second told h
  have hbare : left.map Block.bare = right.map Block.bare := hbareLeft.trans hbareRight.symm
  have hlength : left.length = right.length := by
    simpa using congrArg List.length hbare
  exact ⟨left, right, hleft, hright, hlength, hbare, obeys_routine hleft, obeys_routine hright⟩

/-- A function that sets a variable under a condition and starts a process. -/
def countingRoutine : Routine :=
  ⟨.function, "count", [.condition .player "isNear" [.number "3"]
    [.assignment (.reference "n" "local") "=" "with" [.number "1.50"], .call "wave" true] true],
    1, 6⟩

/-- The function with a target and a template of its own. -/
theorem lowerRoutine_bare_eq_counting :
    ∃ blocks left right, lowerRoutine {} renderValue countingRoutine = .ok blocks ∧
      lowerRoutine {} (.ofTotal fun _ => ("txt", .null)) countingRoutine = .ok left ∧
      lowerRoutine { defaultTarget := "Victim", processTemplatePath := some "wave.json" }
        (.ofTotal fun _ => ("num", .int 1)) countingRoutine = .ok right ∧
      left.length = 6 ∧ right.length = 6 ∧ left.map Block.bare = right.map Block.bare ∧
      (∀ block ∈ left, block.Obeys {} (.ofTotal fun _ => ("txt", .null))) ∧
      (∀ block ∈ right, block.Obeys
        { defaultTarget := "Victim", processTemplatePath := some "wave.json" }
        (.ofTotal fun _ => ("num", .int 1))) ∧
      .processCall "wave" (some "wave.json") ∈ right := by
  have hlower : ∃ blocks, lowerRoutine {} renderValue countingRoutine = .ok blocks := ⟨_, rfl⟩
  obtain ⟨blocks, hlower⟩ := hlower
  obtain ⟨left, right, hleft, hright, hlength, hbare, hobeys, hobeyed⟩ :=
    lowerRoutine_bare_eq hlower {}
      { defaultTarget := "Victim", processTemplatePath := some "wave.json" }
      (fun _ => ("txt", .null)) (fun _ => ("num", .int 1))
  have hsix : left.length = 6 := by
    cases hleft
    rfl
  refine ⟨blocks, left, right, hlower, hleft, hright, hsix, hlength ▸ hsix, hbare, hobeys,
    hobeyed, ?_⟩
  cases hright
  simp [Block.wrap]

end Blockscript
