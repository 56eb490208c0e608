import Mathlib.Data.List.Chain
import Blockscript.Block.Lowering

/-!
The nesting of blocks.  A routine stands for a forest: statements are its leaves
and branches, and a selection is spliced into the forest around it.  Lowering
flattens this forest, and matching the brackets of the flat list rebuilds it.
-/

namespace Blockscript

open Script (Statement Routine)

/-- A block alone, or a block with a region of trees behind it. -/
inductive Tree where
  | leaf (block : Block)
  | branch (head : Block) (children : List Tree)

/-! ### The forest of a routine -/

section Forest

variable (settings : Settings) (render : Renderer)

/-- The block of a statement itself, without the statements nested in it. -/
def ownBlock : Statement → Except Fault Block
  | .action subject name arguments => do
      let kind ← actionKinds.of subject
      let items ← Item.row render arguments 0
      return .instruction
        { kind, items, action := Text.capitalize name, target := settings.defaultTarget }
  | .assignment target operator verb arguments => do
      let items ← Item.rowAfter render target arguments
      let action := if verb = placeholderVerb then operator else verb
      return .instruction { kind := "set_var", items, action := Text.capitalize action }
  | .condition subject name arguments _ negated => do
      let kind ← conditionKinds.of subject
      let items ← Item.row render arguments 0
      return .instruction
        { kind, items, action := Text.capitalize name, target := settings.defaultTarget
          inverted := if negated then "NOT" else "" }
  | .variableCondition target _ name arguments _ => do
      let items ← Item.rowAfter render target arguments
      return .instruction { kind := "if_var", items, action := Text.capitalize name }
  | .otherwise _ => .ok (.instruction { kind := "else", target := settings.defaultTarget })
  | .selection _ _ => .ok resetSelection
  | .call name process =>
      .ok (if process then .processCall name settings.processTemplatePath
        else .functionCall name)
  | .stray what => .error (.noStatement what)

mutual

/-- The trees of a statement.  Conditions and else blocks are branches over their
bodies; a selection is its steps, its body and a reset, side by side. -/
def statementForest : Statement → Except Fault (List Tree)
  | .condition subject name arguments body negated => do
      let head ← ownBlock settings render (.condition subject name arguments body negated)
      let children ← bodyForest body
      return [.branch head children]
  | .variableCondition target operator name arguments body => do
      let head ← ownBlock settings render (.variableCondition target operator name arguments body)
      let children ← bodyForest body
      return [.branch head children]
  | .otherwise body => do
      let head ← ownBlock settings render (.otherwise body)
      let children ← bodyForest body
      return [.branch head children]
  | .selection steps body => do
      let selected ← lowerSteps render steps
      let inner ← bodyForest body
      return selected.map Tree.leaf ++ inner ++ [.leaf resetSelection]
  | .action subject name arguments => do
      let block ← ownBlock settings render (.action subject name arguments)
      return [.leaf block]
  | .assignment target operator verb arguments => do
      let block ← ownBlock settings render (.assignment target operator verb arguments)
      return [.leaf block]
  | .call name process => do
      let block ← ownBlock settings render (.call name process)
      return [.leaf block]
  | .stray what => .error (.noStatement what)

def bodyForest : List Statement → Except Fault (List Tree)
  | [] => .ok []
  | statement :: statements => do
      let trees ← statementForest statement
      let more ← bodyForest statements
      return trees ++ more

end

end Forest

/-! ### Flattening -/

mutual

/-- The blocks of a tree: the children of a branch stand between brackets. -/
def Tree.flatten : Tree → List Block
  | .leaf block => [block]
  | .branch head children => head :: .bracket .opening .normal ::
      (flattenAll children ++ [.bracket .closing .normal])

def flattenAll : List Tree → List Block
  | [] => []
  | tree :: trees => tree.flatten ++ flattenAll trees

end

theorem flattenAll_append (left right : List Tree) :
    flattenAll (left ++ right) = flattenAll left ++ flattenAll right := by
  induction left with
  | nil => rfl
  | cons tree left ih => rw [List.cons_append, flattenAll, flattenAll, ih, List.append_assoc]

theorem flattenAll_leaves (blocks : List Block) :
    flattenAll (blocks.map Tree.leaf) = blocks := by
  induction blocks with
  | nil => rfl
  | cons block blocks ih =>
      rw [List.map_cons, flattenAll, ih]
      rfl

theorem flattenAll_leaf (block : Block) : flattenAll [.leaf block] = [block] := rfl

theorem flattenAll_branch (head : Block) (children : List Tree) :
    flattenAll [.branch head children] =
      Block.wrap .normal head (flattenAll children) := by
  simp only [flattenAll, Tree.flatten, Block.wrap, List.append_nil, List.cons_append]

section Lowering

variable {settings : Settings} {render : Renderer}

mutual

/-- Lowering a statement flattens its trees. -/
theorem lowerStatement_eq (statement : Statement) :
    lowerStatement settings render statement =
      (statementForest settings render statement).map flattenAll := by
  cases statement with
  | action subject name arguments =>
      simp only [lowerStatement, statementForest, ownBlock]
      cases actionKinds.of subject with
      | error => rfl
      | ok kind =>
          cases Item.row render arguments 0 <;> rfl
  | assignment target operator verb arguments =>
      simp only [lowerStatement, statementForest, ownBlock]
      cases Item.rowAfter render target arguments <;> rfl
  | condition subject name arguments body negated =>
      simp only [lowerStatement, statementForest, ownBlock, lowerBody_eq body]
      cases conditionKinds.of subject with
      | error => rfl
      | ok kind =>
          cases Item.row render arguments 0 with
          | error => rfl
          | ok items =>
              cases bodyForest settings render body with
              | error => rfl
              | ok children => exact congrArg Except.ok (flattenAll_branch _ children).symm
  | variableCondition target operator name arguments body =>
      simp only [lowerStatement, statementForest, ownBlock, lowerBody_eq body]
      cases Item.rowAfter render target arguments with
      | error => rfl
      | ok items =>
          cases bodyForest settings render body with
          | error => rfl
          | ok children => exact congrArg Except.ok (flattenAll_branch _ children).symm
  | otherwise body =>
      simp only [lowerStatement, statementForest, ownBlock, lowerBody_eq body]
      cases bodyForest settings render body with
      | error => rfl
      | ok children => exact congrArg Except.ok (flattenAll_branch _ children).symm
  | selection steps body =>
      simp only [lowerStatement, statementForest, lowerBody_eq body]
      cases lowerSteps render steps with
      | error => rfl
      | ok selected =>
          cases bodyForest settings render body with
          | error => rfl
          | ok inner =>
              refine congrArg Except.ok ?_
              rw [flattenAll_append, flattenAll_append, flattenAll_leaves, flattenAll_leaf]
  | call name process => cases process <;> rfl
  | stray what => rfl

theorem lowerBody_eq (body : List Statement) :
    lowerBody settings render body = (bodyForest settings render body).map flattenAll := by
  cases body with
  | nil => rfl
  | cons statement statements =>
      simp only [lowerBody, bodyForest, lowerStatement_eq statement, lowerBody_eq statements]
      cases statementForest settings render statement with
      | error => rfl
      | ok trees =>
          cases bodyForest settings render statements with
          | error => rfl
          | ok more => exact congrArg Except.ok (flattenAll_append trees more).symm

end

end Lowering

/-! ### Matching brackets -/

/-- Match the brackets of blocks.  `current` holds the trees of the region being
read, the last one first, and `outer` the regions around it, each with the block
that the region inside it belongs to. -/
def rebuildFrom : List Block → List Tree → List (List Tree × Block) → Option (List Tree)
  | [], current, [] => some current.reverse
  | [], _, _ :: _ => none
  | .bracket .opening _ :: rest, .leaf head :: before, outer =>
      rebuildFrom rest [] ((before, head) :: outer)
  | .bracket .opening _ :: _, _, _ => none
  | .bracket .closing _ :: rest, current, (before, head) :: outer =>
      rebuildFrom rest (.branch head current.reverse :: before) outer
  | .bracket .closing _ :: _, _, [] => none
  | block :: rest, current, outer => rebuildFrom rest (.leaf block :: current) outer

/-- The trees of blocks: what stands between matching brackets belongs to the
block directly before them. -/
def rebuild (blocks : List Block) : Option (List Tree) :=
  rebuildFrom blocks [] []

def Block.isOpening : Block → Bool
  | .bracket .opening _ => true
  | _ => false

def Block.isClosing : Block → Bool
  | .bracket .closing _ => true
  | _ => false

/-- The blocks that a region of blocks belongs to: conditions and else blocks. -/
def Block.isHead : Block → Bool
  | .instruction content =>
      content.kind ∈ ["if_player", "if_entity", "if_game", "if_var", "else"]
  | _ => false

/-- A block that is neither a bracket nor the head of a region. -/
def Block.IsPlain (block : Block) : Prop :=
  block.isOpening = false ∧ block.isClosing = false ∧ block.isHead = false

mutual

/-- A tree whose branches are the heads of regions, and whose leaves are not. -/
def Tree.Scoped : Tree → Prop
  | .leaf block => block.IsPlain
  | .branch head children => head.isHead = true ∧ AllScoped children

def AllScoped : List Tree → Prop
  | [] => True
  | tree :: trees => tree.Scoped ∧ AllScoped trees

end

theorem AllScoped.append {left right : List Tree} (hleft : AllScoped left)
    (hright : AllScoped right) : AllScoped (left ++ right) := by
  induction left with
  | nil => exact hright
  | cons tree left ih => exact ⟨hleft.1, ih hleft.2⟩

theorem rebuildFrom_block {block : Block} (hopening : block.isOpening = false)
    (hclosing : block.isClosing = false) (rest : List Block) (current : List Tree)
    (outer : List (List Tree × Block)) :
    rebuildFrom (block :: rest) current outer =
      rebuildFrom rest (.leaf block :: current) outer := by
  cases block with
  | bracket direction shape => cases direction <;> contradiction
  | _ => rw [rebuildFrom] <;> exact nofun

theorem Block.not_bracket_of_isHead {block : Block} (hhead : block.isHead = true) :
    block.isOpening = false ∧ block.isClosing = false := by
  cases block with
  | instruction content => exact ⟨rfl, rfl⟩
  | _ => contradiction

mutual

/-- Matching the brackets of a flat tree adds the tree to the region. -/
theorem Tree.Scoped.rebuildFrom_flatten : {tree : Tree} → tree.Scoped →
    ∀ (rest : List Block) (current : List Tree) (outer : List (List Tree × Block)),
      rebuildFrom (tree.flatten ++ rest) current outer =
        rebuildFrom rest (tree :: current) outer
  | .leaf block, hplain, rest, current, outer =>
      rebuildFrom_block hplain.1 hplain.2.1 rest current outer
  | .branch head children, ⟨hhead, hchildren⟩, rest, current, outer => by
      obtain ⟨hopening, hclosing⟩ := Block.not_bracket_of_isHead hhead
      simp only [Tree.flatten, List.cons_append, List.append_assoc]
      rw [rebuildFrom_block hopening hclosing, rebuildFrom,
        hchildren.rebuildFrom_flattenAll, List.append_nil, List.nil_append, rebuildFrom,
        List.reverse_reverse]

theorem AllScoped.rebuildFrom_flattenAll : {trees : List Tree} → AllScoped trees →
    ∀ (rest : List Block) (current : List Tree) (outer : List (List Tree × Block)),
      rebuildFrom (flattenAll trees ++ rest) current outer =
        rebuildFrom rest (trees.reverse ++ current) outer
  | [], _, rest, current, outer => rfl
  | tree :: trees, ⟨htree, htrees⟩, rest, current, outer => by
      rw [flattenAll, List.append_assoc, htree.rebuildFrom_flatten,
        htrees.rebuildFrom_flattenAll, List.reverse_cons, List.append_assoc,
        List.singleton_append]

end

/-- Matching brackets undoes flattening. -/
theorem AllScoped.rebuild_flattenAll {trees : List Tree} (htrees : AllScoped trees) :
    rebuild (flattenAll trees) = some trees := by
  have hall := htrees.rebuildFrom_flattenAll [] [] []
  rwa [List.append_nil, List.append_nil, rebuildFrom, List.reverse_reverse] at hall

/-! ### Balance -/

/-- Blocks whose brackets balance: no bracket closes before it is opened, all are
closed in the end, and all have the normal shape. -/
structure Balanced (blocks : List Block) : Prop where
  nested : ∀ before, before <+: blocks →
    before.countP Block.isClosing ≤ before.countP Block.isOpening
  closed : blocks.countP Block.isClosing = blocks.countP Block.isOpening
  normal : ∀ direction shape, .bracket direction shape ∈ blocks → shape = .normal

/-- Beginnings of joined lists. -/
theorem prefix_append_cases {α : Type} {before left right : List α}
    (h : before <+: left ++ right) :
    before <+: left ∨ ∃ rest, before = left ++ rest ∧ rest <+: right := by
  rcases List.prefix_or_prefix_of_prefix h (List.prefix_append left right) with hshort | hlong
  · exact .inl hshort
  · obtain ⟨rest, rfl⟩ := hlong
    exact .inr ⟨rest, rfl, (List.prefix_append_right_inj left).mp h⟩

theorem balanced_nil : Balanced [] where
  nested before hbefore := by simp [List.prefix_nil.mp hbefore]
  closed := rfl
  normal _ _ hmem := by simp at hmem

theorem Balanced.append {left right : List Block} (hleft : Balanced left)
    (hright : Balanced right) : Balanced (left ++ right) where
  nested before hbefore := by
    rcases prefix_append_cases hbefore with hshort | ⟨rest, rfl, hrest⟩
    · exact hleft.nested before hshort
    · have hcount := hright.nested rest hrest
      rw [List.countP_append, List.countP_append, hleft.closed]
      omega
  closed := by rw [List.countP_append, List.countP_append, hleft.closed, hright.closed]
  normal direction shape hmem := by
    rcases List.mem_append.mp hmem with hmem | hmem
    · exact hleft.normal direction shape hmem
    · exact hright.normal direction shape hmem

theorem balanced_block {block : Block} (hopening : block.isOpening = false)
    (hclosing : block.isClosing = false) : Balanced [block] where
  nested before hbefore := by
    rcases List.prefix_cons_iff.mp hbefore with rfl | ⟨rest, rfl, hrest⟩
    · simp
    · simp [List.prefix_nil.mp hrest, hclosing]
  closed := by simp [hopening, hclosing]
  normal direction shape hmem := by
    rw [List.mem_singleton] at hmem
    subst hmem
    cases direction <;> contradiction

/-- Balanced blocks between two brackets are balanced. -/
theorem Balanced.enclosed {blocks : List Block} (hblocks : Balanced blocks) :
    Balanced (.bracket .opening .normal :: (blocks ++ [.bracket .closing .normal])) where
  nested before hbefore := by
    rcases List.prefix_cons_iff.mp hbefore with rfl | ⟨rest, rfl, hrest⟩
    · simp
    · rcases prefix_append_cases hrest with hshort | ⟨last, rfl, hlast⟩
      · have hcount := hblocks.nested rest hshort
        simp only [List.countP_cons, Block.isOpening, Block.isClosing]
        simp only [Bool.false_eq_true, ↓reduceIte]
        omega
      · have hcount := hlast.sublist.countP_le (p := Block.isClosing)
        have hclosed := hblocks.closed
        simp only [List.countP_cons, List.countP_append, Block.isOpening, Block.isClosing,
          Bool.false_eq_true, ↓reduceIte, List.countP_nil] at hcount ⊢
        omega
  closed := by
    have hclosed := hblocks.closed
    simp only [List.countP_cons, List.countP_append, Block.isOpening, Block.isClosing,
      Bool.false_eq_true, ↓reduceIte, List.countP_nil]
    omega
  normal direction shape hmem := by
    simp only [List.mem_cons, List.mem_append, Block.bracket.injEq, List.not_mem_nil,
      or_false] at hmem
    rcases hmem with ⟨-, rfl⟩ | hmem | ⟨-, rfl⟩
    · rfl
    · exact hblocks.normal direction shape hmem
    · rfl

mutual

theorem Tree.Scoped.balanced : {tree : Tree} → tree.Scoped → Balanced tree.flatten
  | .leaf _, hplain => balanced_block hplain.1 hplain.2.1
  | .branch _ _, ⟨hhead, hchildren⟩ => by
      obtain ⟨hopening, hclosing⟩ := Block.not_bracket_of_isHead hhead
      exact (balanced_block hopening hclosing).append hchildren.balanced.enclosed

theorem AllScoped.balanced : {trees : List Tree} → AllScoped trees →
    Balanced (flattenAll trees)
  | [], _ => balanced_nil
  | _ :: _, ⟨htree, htrees⟩ => htree.balanced.append htrees.balanced

end

/-! ### Heads of regions -/

/-- A bracket opens behind a block exactly when the block is the head of a
region. -/
def OpensBehind (block next : Block) : Prop :=
  next.isOpening = true ↔ block.isHead = true

/-- Blocks in which a bracket opens behind every head of a region, and nowhere
else. -/
structure Headed (blocks : List Block) : Prop where
  chain : blocks.IsChain OpensBehind
  begins : ∀ block ∈ blocks.head?, block.isOpening = false
  ends : ∀ block ∈ blocks.getLast?, block.isHead = false

theorem Headed.append {left right : List Block} (hleft : Headed left)
    (hright : Headed right) : Headed (left ++ right) where
  chain := by
    refine List.isChain_append.mpr ⟨hleft.chain, hright.chain, ?_⟩
    intro block hblock next hnext
    rw [OpensBehind, hleft.ends block hblock, hright.begins next hnext]
  begins block hblock := by
    cases left with
    | nil => exact hright.begins block hblock
    | cons first left => exact hleft.begins block hblock
  ends block hblock := by
    cases right with
    | nil =>
        rw [List.append_nil] at hblock
        exact hleft.ends block hblock
    | cons first right =>
        rw [List.getLast?_append_of_ne_nil _ (List.cons_ne_nil first right)] at hblock
        exact hright.ends block hblock

theorem headed_nil : Headed [] where
  chain := .nil
  begins := nofun
  ends := nofun

theorem headed_block {block : Block} (hopening : block.isOpening = false)
    (hhead : block.isHead = false) : Headed [block] where
  chain := .singleton block
  begins := by simpa using hopening
  ends := by simpa using hhead

theorem headed_opening {head : Block} (hhead : head.isHead = true) :
    Headed [head, .bracket .opening .normal] where
  chain := .cons_cons (by simp [OpensBehind, hhead, Block.isOpening]) (.singleton _)
  begins := by simpa using (Block.not_bracket_of_isHead hhead).1
  ends := by simp [Block.isHead]

mutual

theorem Tree.Scoped.headed : {tree : Tree} → tree.Scoped → Headed tree.flatten
  | .leaf _, hplain => headed_block hplain.1 hplain.2.2
  | .branch _ _, ⟨hhead, hchildren⟩ =>
      (headed_opening hhead).append (hchildren.headed.append (headed_block rfl rfl))

theorem AllScoped.headed : {trees : List Tree} → AllScoped trees → Headed (flattenAll trees)
  | [], _ => headed_nil
  | _ :: _, ⟨htree, htrees⟩ => htree.headed.append htrees.headed

end

/-! ### The forest of a routine is scoped -/

section Scoped

variable {settings : Settings} {render : Renderer}

theorem bind_eq_ok {α β : Type} {x : Except Fault α} {f : α → Except Fault β} {y : β}
    (h : (x >>= f) = .ok y) : ∃ a, x = .ok a ∧ f a = .ok y := by
  cases x with
  | error fault => contradiction
  | ok a => exact ⟨a, rfl, h⟩

theorem SubjectKinds.eq_or_eq_or_eq {kinds : SubjectKinds} {subject : Script.Subject}
    {kind : String} (h : kinds.of subject = .ok kind) :
    kind = kinds.player ∨ kind = kinds.entity ∨ kind = kinds.plot := by
  cases subject with
  | player => exact .inl (Except.ok.inj h).symm
  | entity => exact .inr (.inl (Except.ok.inj h).symm)
  | plot => exact .inr (.inr (Except.ok.inj h).symm)
  | other word => contradiction

theorem isPlain_instruction {content : Instruction}
    (hkind : content.kind ∉ ["if_player", "if_entity", "if_game", "if_var", "else"]) :
    (Block.instruction content).IsPlain :=
  ⟨rfl, rfl, decide_eq_false hkind⟩

theorem isPlain_action {subject : Script.Subject} {name : String}
    {arguments : List Script.Value} {block : Block}
    (h : ownBlock settings render (.action subject name arguments) = .ok block) :
    block.IsPlain := by
  obtain ⟨kind, hkind, h⟩ := bind_eq_ok h
  obtain ⟨items, -, h⟩ := bind_eq_ok h
  cases h
  apply isPlain_instruction
  rcases SubjectKinds.eq_or_eq_or_eq hkind with rfl | rfl | rfl <;> simp [actionKinds]

theorem isHead_condition {subject : Script.Subject} {name : String}
    {arguments : List Script.Value} {body : List Statement} {negated : Bool} {block : Block}
    (h : ownBlock settings render (.condition subject name arguments body negated) =
      .ok block) : block.isHead = true := by
  obtain ⟨kind, hkind, h⟩ := bind_eq_ok h
  obtain ⟨items, -, h⟩ := bind_eq_ok h
  cases h
  rcases SubjectKinds.eq_or_eq_or_eq hkind with rfl | rfl | rfl <;> rfl

theorem allScoped_steps {steps : List Script.Step} {blocks : List Block}
    (h : lowerSteps render steps = .ok blocks) : AllScoped (blocks.map Tree.leaf) := by
  induction steps generalizing blocks with
  | nil =>
      cases h
      trivial
  | cons step steps ih =>
      obtain ⟨block, hblock, h⟩ := bind_eq_ok h
      obtain ⟨more, hmore, h⟩ := bind_eq_ok h
      cases h
      obtain ⟨items, -, hblock⟩ := bind_eq_ok hblock
      cases hblock
      exact ⟨isPlain_instruction (by simp), ih hmore⟩

mutual

/-- The trees of a statement are scoped. -/
theorem allScoped_statementForest : {statement : Statement} → {trees : List Tree} →
    statementForest settings render statement = .ok trees → AllScoped trees
  | .action _ _ _, _, h => by
      obtain ⟨block, hblock, h⟩ := bind_eq_ok h
      cases h
      exact ⟨isPlain_action hblock, trivial⟩
  | .assignment _ _ _ _, _, h => by
      obtain ⟨block, hblock, h⟩ := bind_eq_ok h
      obtain ⟨items, -, hblock⟩ := bind_eq_ok hblock
      cases h
      cases hblock
      exact ⟨isPlain_instruction (by simp), trivial⟩
  | .condition _ _ _ _ _, _, h => by
      obtain ⟨head, hhead, h⟩ := bind_eq_ok h
      obtain ⟨children, hchildren, h⟩ := bind_eq_ok h
      cases h
      exact ⟨⟨isHead_condition hhead, allScoped_bodyForest hchildren⟩, trivial⟩
  | .variableCondition _ _ _ _ _, _, h => by
      obtain ⟨head, hhead, h⟩ := bind_eq_ok h
      obtain ⟨children, hchildren, h⟩ := bind_eq_ok h
      obtain ⟨items, -, hhead⟩ := bind_eq_ok hhead
      cases h
      cases hhead
      exact ⟨⟨rfl, allScoped_bodyForest hchildren⟩, trivial⟩
  | .otherwise _, _, h => by
      obtain ⟨head, hhead, h⟩ := bind_eq_ok h
      obtain ⟨children, hchildren, h⟩ := bind_eq_ok h
      cases h
      cases hhead
      exact ⟨⟨rfl, allScoped_bodyForest hchildren⟩, trivial⟩
  | .selection _ _, _, h => by
      obtain ⟨selected, hselected, h⟩ := bind_eq_ok h
      obtain ⟨inner, hinner, h⟩ := bind_eq_ok h
      cases h
      have hreset : AllScoped [.leaf resetSelection] :=
        ⟨isPlain_instruction (by decide), trivial⟩
      exact ((allScoped_steps hselected).append (allScoped_bodyForest hinner)).append hreset
  | .call _ process, _, h => by
      obtain ⟨block, hblock, h⟩ := bind_eq_ok h
      cases h
      cases hblock
      cases process <;> exact ⟨⟨rfl, rfl, rfl⟩, trivial⟩
  | .stray _, _, h => by contradiction

theorem allScoped_bodyForest : {body : List Statement} → {trees : List Tree} →
    bodyForest settings render body = .ok trees → AllScoped trees
  | [], _, h => by
      cases h
      trivial
  | _ :: _, _, h => by
      obtain ⟨trees, htrees, h⟩ := bind_eq_ok h
      obtain ⟨more, hmore, h⟩ := bind_eq_ok h
      cases h
      exact (allScoped_statementForest htrees).append (allScoped_bodyForest hmore)

end

theorem isPlain_definition {routine : Routine} {head : Block}
    (h : definition routine = .ok head) : head.IsPlain := by
  rw [definition] at h
  split at h
  · cases h
    exact ⟨rfl, rfl, rfl⟩
  · cases h
    exact ⟨rfl, rfl, rfl⟩
  · cases h
    exact ⟨rfl, rfl, rfl⟩
  · contradiction

/-- The blocks of a routine are its definition and the forest of its body, flat:
their brackets balance, matching them rebuilds the forest, and a bracket opens
behind each condition and each else block and nowhere else. -/
theorem lowerRoutine_rebuild {routine : Routine} {blocks : List Block}
    (h : lowerRoutine settings render routine = .ok blocks) :
    ∃ head body forest, blocks = head :: body ∧ definition routine = .ok head ∧
      Balanced body ∧ bodyForest settings render routine.body = .ok forest ∧
      rebuild body = some forest ∧ blocks.IsChain OpensBehind ∧
      ∀ block ∈ blocks.getLast?, block.isHead = false := by
  obtain ⟨head, hhead, h⟩ := bind_eq_ok h
  obtain ⟨body, hbody, h⟩ := bind_eq_ok h
  cases h
  rw [lowerBody_eq] at hbody
  cases hforest : bodyForest settings render routine.body with
  | error fault =>
      rw [hforest] at hbody
      contradiction
  | ok forest =>
      rw [hforest] at hbody
      cases hbody
      have hscoped := allScoped_bodyForest hforest
      have hplain := isPlain_definition hhead
      have hheaded := (headed_block hplain.1 hplain.2.2).append hscoped.headed
      exact ⟨head, _, forest, rfl, hhead, hscoped.balanced, rfl, hscoped.rebuild_flattenAll,
        hheaded.chain, hheaded.ends⟩

end Scoped

/-- A function that selects players under a condition. -/
def nestedRoutine : Routine :=
  ⟨.function, "greet", [.condition .plot "hasPlayers" []
    [.selection [⟨"allPlayers", "nil", []⟩] [.call "wave" false], .otherwise []] false], 1, 6⟩

theorem lowerRoutine_rebuild_nested :
    ∃ blocks, lowerRoutine {} renderValue nestedRoutine = .ok blocks ∧
      ∃ head body forest, blocks = head :: body ∧ definition nestedRoutine = .ok head ∧
        Balanced body ∧ bodyForest {} renderValue nestedRoutine.body = .ok forest ∧
        rebuild body = some forest ∧ blocks.IsChain OpensBehind ∧
        ∀ block ∈ blocks.getLast?, block.isHead = false := by
  have hlower : ∃ blocks, lowerRoutine {} renderValue nestedRoutine = .ok blocks := ⟨_, rfl⟩
  obtain ⟨blocks, hlower⟩ := hlower
  exact ⟨blocks, hlower, lowerRoutine_rebuild hlower⟩

end Blockscript
