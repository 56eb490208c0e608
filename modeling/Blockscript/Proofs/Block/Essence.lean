import Blockscript.Block.Lowering
import Blockscript.Number.Style
import Blockscript.Proofs.Script.Writable

/-!
The essence of a routine: what is left of it when the first letters of names, the
operators that lowering drops and the exact coordinates do not count.  Its marks are
its blocks without brackets' shapes and settings; where selections are not nested,
and no step looks like their reset, the marks determine the essence.
-/

namespace Blockscript

/-! ### Essences -/

namespace Essence

/-- The essence of a value: coordinates count as they are printed. -/
inductive Value where
  | text (content : String)
  | number (written : String)
  | reference (name scope : String)
  | location (x y z pitch yaw : String)
  | vector (x y z : String)
  | formless
deriving DecidableEq, Repr

structure Step where
  action : String
  subAction : String
  arguments : List Value
deriving DecidableEq, Repr

/-- The essence of a statement with no body. -/
inductive Leaf where
  | action (subject : Script.Subject) (name : String) (arguments : List Value)
  | assignment (target : Value) (action : String) (arguments : List Value)
  | call (name : String) (process : Bool)
  | stray (what : Script.Stray)
deriving DecidableEq, Repr

/-- The essence of what stands before a body. -/
inductive Head where
  | condition (subject : Script.Subject) (name : String) (arguments : List Value)
      (negated : Bool)
  | variableCondition (target : Value) (name : String) (arguments : List Value)
  | otherwise
deriving DecidableEq, Repr

inductive Statement where
  | leaf (leaf : Leaf)
  | region (head : Head) (body : List Statement)
  | selection (steps : List Step) (body : List Statement)

structure Routine where
  kind : Script.RoutineKind
  name : String
  body : List Statement

end Essence

namespace Script

/-- Coordinates count as they are printed. -/
def Value.essence : Value → Essence.Value
  | .text content => .text content
  | .number written => .number written
  | .reference name scope => .reference name scope
  | .location x y z pitch yaw =>
      .location (NumberStyle.json.write x) (NumberStyle.json.write y) (NumberStyle.json.write z)
        (NumberStyle.json.write pitch) (NumberStyle.json.write yaw)
  | .vector x y z =>
      .vector (NumberStyle.json.write x) (NumberStyle.json.write y) (NumberStyle.json.write z)
  | .formless => .formless

/-- The names of a step count with their first letters in upper case, and a sub-action
that stands for none is none. -/
def Step.essence (step : Step) : Essence.Step where
  action := Text.capitalize step.action
  subAction :=
    if step.subAction = placeholderSubAction then "" else Text.capitalize step.subAction
  arguments := step.arguments.map Value.essence

mutual

/-- Names count with their first letters in upper case.  An assignment counts with its
operator or its verb, and the operator of a condition does not count. -/
def Statement.essence : Statement → Essence.Statement
  | .action subject name arguments =>
      .leaf (.action subject (Text.capitalize name) (arguments.map Value.essence))
  | .assignment target operator verb arguments =>
      .leaf (.assignment target.essence
        (if verb = placeholderVerb then operator else Text.capitalize verb)
        (arguments.map Value.essence))
  | .condition subject name arguments body negated =>
      .region (.condition subject (Text.capitalize name) (arguments.map Value.essence) negated)
        (essenceOfBody body)
  | .variableCondition target _ name arguments body =>
      .region (.variableCondition target.essence (Text.capitalize name)
        (arguments.map Value.essence)) (essenceOfBody body)
  | .otherwise body => .region .otherwise (essenceOfBody body)
  | .selection steps body => .selection (steps.map Step.essence) (essenceOfBody body)
  | .call name process => .leaf (.call name process)
  | .stray what => .leaf (.stray what)

def essenceOfBody : List Statement → List Essence.Statement
  | [] => []
  | statement :: statements => statement.essence :: essenceOfBody statements

end

/-- The name of an event counts with its first letter in upper case, and the place of a
routine does not count. -/
def Routine.essence (routine : Routine) : Essence.Routine where
  kind := routine.kind
  name := if routine.kind = .event then Text.capitalize routine.name else routine.name
  body := essenceOfBody routine.body

end Script

/-! ### Marks -/

namespace Essence

def Step.reset : Step :=
  { action := "Reset", subAction := "", arguments := [] }

/-- A block without what the settings decide. -/
inductive Mark where
  | definition (kind : Script.RoutineKind) (name : String)
  | leaf (leaf : Leaf)
  | head (head : Head)
  | step (step : Step)
  | bracket (direction : Bracket.Direction)
deriving DecidableEq, Repr

mutual

def Statement.marks : Statement → List Mark
  | .leaf leaf => [.leaf leaf]
  | .region head body =>
      .head head :: .bracket .opening :: (bodyMarks body ++ [.bracket .closing])
  | .selection steps body => steps.map .step ++ bodyMarks body ++ [.step .reset]

def bodyMarks : List Statement → List Mark
  | [] => []
  | statement :: statements => statement.marks ++ bodyMarks statements

end

def Routine.marks (routine : Routine) : List Mark :=
  .definition routine.kind routine.name :: bodyMarks routine.body

mutual

/-- A statement, inside a selection or not, in which selections are not nested, have a
step, and have no step like their reset. -/
def Statement.Separated (inside : Bool) : Statement → Prop
  | .leaf _ => True
  | .region _ body => BodySeparated inside body
  | .selection steps body =>
      inside = false ∧ steps ≠ [] ∧ (∀ step ∈ steps, step ≠ .reset) ∧ BodySeparated true body

def BodySeparated (inside : Bool) : List Statement → Prop
  | [] => True
  | statement :: statements => statement.Separated inside ∧ BodySeparated inside statements

end

/-- Marks at which a body is over. -/
def Ended (marks : List Mark) : Prop :=
  ∀ mark ∈ marks.head?, mark = .bracket .closing ∨ mark = .step .reset

/-- Marks that begin with no step of a selection, but for a reset. -/
def Stepped (marks : List Mark) : Prop :=
  ∀ step, .step step ∈ marks.head? → step = .reset

/-- Steps are told apart from what comes behind them. -/
theorem map_step_append_inj {left right : List Step} {rest other : List Mark}
    (hleft : ∀ step ∈ left, step ≠ .reset) (hright : ∀ step ∈ right, step ≠ .reset)
    (hrest : Stepped rest) (hother : Stepped other)
    (h : left.map Mark.step ++ rest = right.map Mark.step ++ other) :
    left = right ∧ rest = other := by
  induction left generalizing right with
  | nil =>
      cases right with
      | nil => exact ⟨rfl, h⟩
      | cons step right =>
          have hreset := hrest step (congrArg List.head? h)
          exact absurd hreset (hright step List.mem_cons_self)
  | cons step left ih =>
      cases right with
      | nil =>
          have hreset := hother step (congrArg List.head? h.symm)
          exact absurd hreset (hleft step List.mem_cons_self)
      | cons found right =>
          obtain ⟨hstep, htail⟩ := List.cons.inj h
          cases hstep
          obtain ⟨rfl, heq⟩ := ih (fun s hs => hleft s (List.mem_cons_of_mem _ hs))
            (fun s hs => hright s (List.mem_cons_of_mem _ hs)) htail
          exact ⟨rfl, heq⟩

/-- A body inside a selection does not begin with a step. -/
theorem BodySeparated.stepped {body : List Statement} (hbody : BodySeparated true body)
    (rest : List Mark) : Stepped (bodyMarks body ++ .step .reset :: rest) := by
  intro step hstep
  cases body with
  | nil =>
      cases hstep
      rfl
  | cons statement statements =>
      cases statement with
      | leaf leaf => simp [bodyMarks, Statement.marks] at hstep
      | region head body => simp [bodyMarks, Statement.marks] at hstep
      | selection steps body => exact absurd hbody.1.1 (by decide)

/-- A selection begins with a step. -/
theorem Statement.Separated.exists_step {inside : Bool} {steps : List Step}
    {body : List Statement} (h : (Statement.selection steps body).Separated inside)
    {mark : Mark} {rest other : List Mark}
    (heq : (Statement.selection steps body).marks ++ rest = mark :: other) :
    ∃ step, mark = .step step := by
  obtain ⟨step, more, rfl⟩ := List.exists_cons_of_ne_nil h.2.1
  exact ⟨step, (List.cons.inj heq).1.symm⟩

/-- A body is not over where a statement begins. -/
theorem Statement.Separated.not_ended {inside : Bool} {statement : Statement}
    (hstatement : statement.Separated inside) (rest : List Mark) :
    ¬ Ended (statement.marks ++ rest) := by
  intro hended
  cases statement with
  | leaf leaf => exact absurd (hended _ rfl) (by simp)
  | region head body => exact absurd (hended _ rfl) (by simp)
  | selection steps body =>
      obtain ⟨-, hsteps, hreset, -⟩ := hstatement
      obtain ⟨step, more, rfl⟩ := List.exists_cons_of_ne_nil hsteps
      rcases hended _ rfl with h | h
      · contradiction
      · exact hreset step List.mem_cons_self (Mark.step.inj h)

mutual

/-- The marks of a statement determine it, whatever comes behind them. -/
theorem Statement.marks_append_inj : (left : Statement) →
    ∀ {inside : Bool} {right : Statement} {rest other : List Mark},
      left.Separated inside → right.Separated inside →
      left.marks ++ rest = right.marks ++ other → left = right ∧ rest = other
  | .leaf leaf, inside, right, rest, other, hleft, hright, h => by
      cases right with
      | leaf found =>
          obtain ⟨hleaf, heq⟩ := List.cons.inj h
          cases hleaf
          exact ⟨rfl, heq⟩
      | region head body => exact absurd (List.cons.inj h).1 nofun
      | selection steps body =>
          obtain ⟨step, hstep⟩ := hright.exists_step h.symm
          contradiction
  | .region head body, inside, right, rest, other, hleft, hright, h => by
      cases right with
      | leaf found => exact absurd (List.cons.inj h).1 nofun
      | region found more =>
          simp only [Statement.marks, List.cons_append, List.append_assoc, List.cons.injEq,
            Mark.head.injEq, true_and] at h
          obtain ⟨rfl, h⟩ := h
          have hended : ∀ tail, Ended (.bracket .closing :: tail) := by
            rintro tail mark ⟨⟩
            exact .inl rfl
          obtain ⟨rfl, htail⟩ := bodyMarks_append_inj body hleft hright (hended _) (hended _) h
          exact ⟨rfl, (List.cons.inj htail).2⟩
      | selection steps body =>
          obtain ⟨step, hstep⟩ := hright.exists_step h.symm
          contradiction
  | .selection steps body, inside, right, rest, other, hleft, hright, h => by
      cases right with
      | leaf found =>
          obtain ⟨step, hstep⟩ := hleft.exists_step h
          contradiction
      | region head body =>
          obtain ⟨step, hstep⟩ := hleft.exists_step h
          contradiction
      | selection found more =>
          obtain ⟨-, -, hsteps, hbody⟩ := hleft
          obtain ⟨-, -, hfound, hmore⟩ := hright
          simp only [Statement.marks, List.append_assoc, List.cons_append, List.nil_append] at h
          obtain ⟨rfl, htail⟩ := map_step_append_inj hsteps hfound (hbody.stepped _)
            (hmore.stepped _) h
          have hended : ∀ tail, Ended (.step .reset :: tail) := by
            rintro tail mark ⟨⟩
            exact .inr rfl
          obtain ⟨rfl, hlast⟩ := bodyMarks_append_inj body hbody hmore (hended _) (hended _) htail
          exact ⟨rfl, (List.cons.inj hlast).2⟩

theorem bodyMarks_append_inj : (left : List Statement) →
    ∀ {inside : Bool} {right : List Statement} {rest other : List Mark},
      BodySeparated inside left → BodySeparated inside right → Ended rest → Ended other →
      bodyMarks left ++ rest = bodyMarks right ++ other → left = right ∧ rest = other
  | [], inside, [], rest, other, _, _, _, _, h => ⟨rfl, h⟩
  | [], inside, statement :: statements, rest, other, _, hright, hrest, _, h => by
      rw [bodyMarks.eq_2, List.append_assoc] at h
      have h : rest = _ := h
      exact absurd (h ▸ hrest) (hright.1.not_ended _)
  | statement :: statements, inside, [], rest, other, hleft, _, _, hother, h => by
      rw [bodyMarks.eq_2, List.append_assoc] at h
      have h : _ = other := h
      exact absurd (h ▸ hother) (hleft.1.not_ended _)
  | statement :: statements, inside, found :: more, rest, other, hleft, hright, hrest, hother,
      h => by
      rw [bodyMarks.eq_2, bodyMarks.eq_2, List.append_assoc, List.append_assoc] at h
      obtain ⟨rfl, hmore⟩ := statement.marks_append_inj hleft.1 hright.1 h
      obtain ⟨rfl, heq⟩ := bodyMarks_append_inj statements hleft.2 hright.2 hrest hother hmore
      exact ⟨rfl, heq⟩

end

/-- The marks of a routine determine it. -/
theorem Routine.marks_inj {left right : Routine} (hleft : BodySeparated false left.body)
    (hright : BodySeparated false right.body) (h : left.marks = right.marks) : left = right := by
  obtain ⟨kind, name, body⟩ := left
  obtain ⟨other, found, more⟩ := right
  obtain ⟨hdefinition, hmarks⟩ := List.cons.inj h
  cases hdefinition
  have hbodies : bodyMarks body ++ [] = bodyMarks more ++ [] := congrArg (· ++ []) hmarks
  have hended : Ended [] := by
    rintro mark ⟨⟩
  obtain ⟨rfl, -⟩ := bodyMarks_append_inj body hleft hright hended hended hbodies
  rfl

end Essence

/-! ### Selections that are told apart -/

namespace Script

/-- A step that is written like the reset behind a selection. -/
def Step.IsReset (step : Step) : Prop :=
  step.action ∈ ["reset", "Reset"] ∧ step.subAction = placeholderSubAction ∧
    step.arguments = []

mutual

/-- A statement, inside a selection or not, in which no selection stands inside
another one and no step is written like a reset. -/
def Statement.Separated (inside : Bool) : Statement → Prop
  | .condition _ _ _ body _ => BodySeparated inside body
  | .variableCondition _ _ _ _ body => BodySeparated inside body
  | .otherwise body => BodySeparated inside body
  | .selection steps body =>
      inside = false ∧ (∀ step ∈ steps, ¬ step.IsReset) ∧ BodySeparated true body
  | .action _ _ _ | .assignment _ _ _ _ | .call _ _ | .stray _ => True

def BodySeparated (inside : Bool) : List Statement → Prop
  | [] => True
  | statement :: statements => statement.Separated inside ∧ BodySeparated inside statements

end

def Routine.Separated (routine : Routine) : Prop :=
  BodySeparated false routine.body

theorem toNat_lt_of_isNameStart {c : Char} (hc : isNameStart c = true) : c.toNat < 128 := by
  simp only [isNameStart, Terminal.isAlpha_eq, Bool.or_eq_true, Bool.and_eq_true,
    decide_eq_true_eq, beq_iff_eq] at hc
  rcases hc with (⟨-, hhigh⟩ | ⟨-, hhigh⟩) | rfl
  · exact Nat.lt_of_le_of_lt (UInt32.le_iff_toNat_le.mp hhigh) (by decide)
  · exact Nat.lt_of_le_of_lt (UInt32.le_iff_toNat_le.mp hhigh) (by decide)
  · decide

/-- Only the first letter of a name changes. -/
theorem IsName.exists_capitalize {name : String} (hname : IsName name.toList) :
    ∃ c rest, name.toList = c :: rest ∧ c.toNat < 128 ∧
      Text.capitalize name = String.ofList (c.toUpper :: rest) := by
  generalize hchars : name.toList = chars at hname
  cases hname with
  | @intro c rest hstart hrest hfree =>
      have hascii := toNat_lt_of_isNameStart hstart
      refine ⟨c, rest, rfl, hascii, ?_⟩
      rw [Text.capitalize, hchars]
      simp [Text.upper, hascii]

theorem IsName.capitalize_ne_empty {name : String} (hname : IsName name.toList) :
    Text.capitalize name ≠ "" := by
  obtain ⟨c, rest, -, -, hcapital⟩ := hname.exists_capitalize
  rw [hcapital]
  intro hempty
  have hchars := congrArg String.toList hempty
  rw [String.toList_ofList] at hchars
  contradiction

theorem IsName.mem_of_capitalize_eq {name : String} (hname : IsName name.toList)
    (h : Text.capitalize name = "Reset") : name ∈ ["reset", "Reset"] := by
  obtain ⟨c, rest, hchars, hascii, hcapital⟩ := hname.exists_capitalize
  have hall : ∀ n < 128, (Char.ofNat n).toUpper = 'R' →
      Char.ofNat n = 'r' ∨ Char.ofNat n = 'R' := by decide
  have hletters := congrArg String.toList (hcapital.symm.trans h)
  rw [String.toList_ofList] at hletters
  obtain ⟨hupper, hrest⟩ := List.cons.inj hletters
  have hfirst := hall c.toNat hascii
  rw [Char.ofNat_toNat] at hfirst
  rw [← String.ofList_toList (s := name), hchars, hrest]
  rcases hfirst hupper with rfl | rfl
  · decide
  · decide

/-- Only a step that is written like a reset counts as one. -/
theorem Step.IsWritable.essence_ne_reset {step : Step} (hstep : step.IsWritable)
    (hreset : ¬ step.IsReset) : step.essence ≠ .reset := by
  intro h
  obtain ⟨haction, hsub, -⟩ := hstep
  have hname := haction.mem_of_capitalize_eq (congrArg Essence.Step.action h)
  have hsubAction : (if step.subAction = placeholderSubAction then ""
      else Text.capitalize step.subAction) = "" := congrArg Essence.Step.subAction h
  have harguments : step.arguments.map Value.essence = [] := congrArg Essence.Step.arguments h
  split at hsubAction
  · rename_i hnil
    exact hreset ⟨hname, hnil, List.map_eq_nil_iff.mp harguments⟩
  · exact hsub.capitalize_ne_empty hsubAction

mutual

/-- The essence of a separated statement is separated. -/
theorem Statement.Separated.essence {inside : Bool} : {statement : Statement} →
    statement.IsWritable → statement.Separated inside → statement.essence.Separated inside
  | .action _ _ _, _, _ => trivial
  | .assignment _ _ _ _, _, _ => trivial
  | .condition _ _ _ _ _, hwritable, hseparated =>
      BodySeparated.essence hwritable.2.2.2.2 hseparated
  | .variableCondition _ _ _ _ _, hwritable, hseparated =>
      BodySeparated.essence hwritable.2.2.2.2 hseparated
  | .otherwise _, hwritable, hseparated => BodySeparated.essence hwritable hseparated
  | .selection steps body, ⟨hsome, hsteps, hbody⟩, ⟨hinside, hreset, hseparated⟩ => by
      refine ⟨hinside, by simpa using hsome, ?_, hseparated.essence hbody⟩
      intro step hstep
      obtain ⟨written, hmem, rfl⟩ := List.mem_map.mp hstep
      exact (hsteps written hmem).essence_ne_reset (hreset written hmem)
  | .call _ _, _, _ => trivial
  | .stray _, _, _ => trivial

theorem BodySeparated.essence {inside : Bool} : {body : List Statement} →
    BodyIsWritable body → BodySeparated inside body →
    Essence.BodySeparated inside (essenceOfBody body)
  | [], _, _ => trivial
  | _ :: _, hwritable, hseparated =>
      ⟨hseparated.1.essence hwritable.1, hseparated.2.essence hwritable.2⟩

end

end Script

end Blockscript
