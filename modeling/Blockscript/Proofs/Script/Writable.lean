import Blockscript.Proofs.Script.Deriving

/-!
The syntax trees that can be written.  Whatever lexemes spell is writable, and a
writable tree has a spelling.
-/

namespace Blockscript.Script

/-! ### Writable trees -/

/-- A number that some numeral is the text of. -/
def IsWrittenNumber (x : Double) : Prop :=
  ∃ text, IsNumeral text.toList ∧ Double.read? text = some x

namespace Value

/-- A variable with a name and one of the three scopes. -/
def IsWritableReference : Value → Prop
  | .reference name scope => IsName name.toList ∧ scope ∈ ["local", "unsaved", "saved"]
  | _ => False

def IsWritable : Value → Prop
  | .text _ => True
  | .number written => IsNumeral written.toList
  | .reference name scope => IsWritableReference (.reference name scope)
  | .location x y z pitch yaw => ∀ c ∈ [x, y, z, pitch, yaw], IsWrittenNumber c
  | .vector x y z => ∀ c ∈ [x, y, z], IsWrittenNumber c
  | .formless => False

end Value

def Step.IsWritable (step : Step) : Prop :=
  IsName step.action.toList ∧ IsName step.subAction.toList ∧
    ∀ value ∈ step.arguments, value.IsWritable

/-- The subjects that there are words for. -/
def Subject.IsWritable (subject : Subject) : Prop :=
  subject ∈ [.player, .entity, .plot]

def IsOperator (operator : String) : Prop :=
  operator ∈ ["=", "+", "-", "*", "/", "%"]

mutual

/-- A statement that can be written: the names in it are names, only conditions
on players are negated, and a selection has a step. -/
def Statement.IsWritable : Statement → Prop
  | .action subject name arguments =>
      subject.IsWritable ∧ IsName name.toList ∧ ∀ value ∈ arguments, value.IsWritable
  | .assignment target operator verb arguments =>
      target.IsWritableReference ∧ IsOperator operator ∧ IsName verb.toList ∧
        ∀ value ∈ arguments, value.IsWritable
  | .condition subject name arguments body negated =>
      subject.IsWritable ∧ (negated = true → subject = .player) ∧ IsName name.toList ∧
        (∀ value ∈ arguments, value.IsWritable) ∧ BodyIsWritable body
  | .variableCondition target operator name arguments body =>
      target.IsWritableReference ∧ IsOperator operator ∧ IsName name.toList ∧
        (∀ value ∈ arguments, value.IsWritable) ∧ BodyIsWritable body
  | .otherwise body => BodyIsWritable body
  | .selection steps body =>
      steps ≠ [] ∧ (∀ step ∈ steps, step.IsWritable) ∧ BodyIsWritable body
  | .call name _ => IsName name.toList
  | .stray _ => False

def BodyIsWritable : List Statement → Prop
  | [] => True
  | statement :: rest => statement.IsWritable ∧ BodyIsWritable rest

end

def Routine.IsWritable (routine : Routine) : Prop :=
  routine.kind ∈ [.event, .function, .process] ∧ IsName routine.name.toList ∧
    BodyIsWritable routine.body

/-! ### Spelled trees are writable -/

theorem Lexical.tail {token : Token} {tokens : List Token} (h : Lexical (token :: tokens)) :
    Lexical tokens :=
  fun other hother => h other (List.mem_cons_of_mem token hother)

theorem Trail.forall {α : Type} {separator : Terminal} {P : α → List Token → Prop}
    {Q : α → Prop} {xs : List α} {tokens : List Token}
    (htrail : Trail separator P xs tokens) (hlexical : Lexical tokens)
    (himp : ∀ x tokens, P x tokens → Lexical tokens → Q x) : ∀ x ∈ xs, Q x := by
  induction htrail with
  | nil => exact List.forall_mem_nil Q
  | cons _ hfirst _ ih =>
      exact List.forall_mem_cons.mpr
        ⟨himp _ _ hfirst hlexical.tail.append_left, ih hlexical.tail.append_right⟩

theorem Enclosed.forall {α : Type} {P : α → List Token → Prop} {Q : α → Prop}
    {xs : List α} {tokens : List Token} (hall : Enclosed P xs tokens)
    (hlexical : Lexical tokens) (himp : ∀ x tokens, P x tokens → Lexical tokens → Q x) :
    ∀ x ∈ xs, Q x := by
  cases hall with
  | nothing => exact List.forall_mem_nil Q
  | items _ hfirst hmore _ =>
      exact List.forall_mem_cons.mpr ⟨himp _ _ hfirst hlexical.tail.append_left,
        hmore.forall hlexical.tail.append_right.append_left himp⟩

theorem SpellsReference.isWritable {value : Value} {tokens : List Token}
    (hspells : SpellsReference value tokens) (hlexical : Lexical tokens) :
    value.IsWritableReference := by
  cases hspells with
  | bare hname => exact ⟨hlexical.head hname, by decide⟩
  | withScope _ _ hscope hname =>
      refine ⟨hlexical.tail.head hname, ?_⟩
      simp only [scopes, List.mem_cons, Prod.mk.injEq, List.not_mem_nil, or_false] at hscope
      rcases hscope with ⟨-, rfl⟩ | ⟨-, rfl⟩ | ⟨-, rfl⟩ <;> decide

theorem Value.IsWritableReference.isWritable {value : Value}
    (hvalue : value.IsWritableReference) : value.IsWritable := by
  cases value with
  | reference name scope => exact hvalue
  | _ => exact hvalue.elim

theorem SpellsCoordinate.isWrittenNumber {x : Double} {tokens : List Token}
    (hspells : SpellsCoordinate x tokens) (hlexical : Lexical tokens) :
    IsWrittenNumber x := by
  cases hspells with
  | numeral hkind hread => exact ⟨_, hlexical.head hkind, hread⟩

/-- The coordinates that a location has when its facing is not written. -/
theorem isWrittenNumber_zero : IsWrittenNumber (.zero false) := by
  have hdigits : IsDigits ['0'] := ⟨by decide, List.all_eq_true.mp (by decide)⟩
  exact ⟨"0", .intro (.inl rfl) (.whole hdigits) (.inl rfl), by decide⟩

theorem SpellsValue.isWritable {value : Value} {tokens : List Token}
    (hspells : SpellsValue value tokens) (hlexical : Lexical tokens) : value.IsWritable := by
  cases hspells with
  | text => trivial
  | number hkind => exact hlexical.head hkind
  | reference href => exact (href.isWritable hlexical).isWritable
  | location hword hall =>
      have hwritten := hall.forall hlexical.tail fun _ _ => SpellsCoordinate.isWrittenNumber
      simp only [List.forall_mem_cons, List.not_mem_nil, false_implies, implies_true,
        and_true] at hwritten
      simp [Value.IsWritable, hwritten, isWrittenNumber_zero]
  | facing hword hall => exact hall.forall hlexical.tail fun _ _ => SpellsCoordinate.isWrittenNumber
  | vector hword hall => exact hall.forall hlexical.tail fun _ _ => SpellsCoordinate.isWrittenNumber

theorem SpellsStep.isWritable {step : Step} {tokens : List Token}
    (hspells : SpellsStep step tokens) (hlexical : Lexical tokens) : step.IsWritable := by
  cases hspells with
  | step haction _ hsubAction harguments =>
      exact ⟨hlexical.head haction, hlexical.tail.tail.head hsubAction,
        harguments.forall hlexical.tail.tail.tail fun _ _ => SpellsValue.isWritable⟩

theorem SpellsSubject.isWritable {subject : Subject} {word : Token}
    (hspells : SpellsSubject subject word) : subject.IsWritable := by
  cases hspells <;> simp [Subject.IsWritable]

theorem SpellsNegation.subject_eq {subject : Subject} {negated : Bool} {tokens : List Token}
    (hspells : SpellsNegation subject negated tokens) (hnegated : negated = true) :
    subject = .player := by
  cases hspells with
  | absent => contradiction
  | present => rfl

theorem SpellsOptional.isWritable {arguments : List Value} {tokens : List Token}
    (hspells : SpellsOptional arguments tokens) (hlexical : Lexical tokens) :
    ∀ value ∈ arguments, value.IsWritable := by
  cases hspells with
  | absent => exact List.forall_mem_nil _
  | present harguments => exact harguments.forall hlexical fun _ _ => SpellsValue.isWritable

theorem isOperator_of_isLexeme {text : String}
    (hlexeme : Terminal.operator.IsLexeme text.toList) : IsOperator text := by
  obtain ⟨c, hc, htext⟩ := hlexeme
  have htext : text = String.ofList [c] := by rw [← htext, String.ofList_toList]
  have hall : (operatorSigns.map fun c => String.ofList [c]) =
      ["=", "+", "-", "*", "/", "%"] := by decide
  rw [htext, IsOperator, ← hall]
  exact List.mem_map_of_mem hc

mutual

/-- A statement that lexemes spell is writable. -/
theorem SpellsStatement.isWritable {statement : Statement} {tokens : List Token} :
    SpellsStatement statement tokens → Lexical tokens → statement.IsWritable
  | .action hsubject _ hname harguments, hlexical => by
      have harguments := harguments.forall hlexical.tail.tail.tail fun _ _ => SpellsValue.isWritable
      exact ⟨hsubject.isWritable, hlexical.tail.tail.head hname, harguments⟩
  | .assignment _ htarget hoperator hverb harguments, hlexical => by
      have hbehind := hlexical.tail.append_right
      have harguments := harguments.forall hbehind.tail.tail fun _ _ => SpellsValue.isWritable
      exact ⟨htarget.isWritable hlexical.tail.append_left,
        isOperator_of_isLexeme (hbehind.head hoperator), hbehind.tail.head hverb, harguments⟩
  | .condition _ hnegation hsubject _ hname harguments hbody, hlexical => by
      have hbehind := hlexical.tail.append_right.tail.tail
      exact ⟨hsubject.isWritable, hnegation.subject_eq, hbehind.head hname,
        harguments.isWritable hbehind.tail.append_left,
        hbody.isWritable hbehind.tail.append_right⟩
  | .variableCondition _ _ htarget hoperator hname harguments hbody, hlexical => by
      have hbehind := hlexical.tail.tail.append_right
      have harguments :=
        harguments.forall hbehind.tail.tail.append_left fun _ _ => SpellsValue.isWritable
      exact ⟨htarget.isWritable hlexical.tail.tail.append_left,
        isOperator_of_isLexeme (hbehind.head hoperator), hbehind.tail.head hname, harguments,
        hbody.isWritable hbehind.tail.tail.append_right⟩
  | .otherwise _ hbody, hlexical => hbody.isWritable hlexical.tail
  | .selection _ hfirst hmore hbody, hlexical => by
      have hbehind := hlexical.tail.append_right
      refine ⟨List.cons_ne_nil _ _, List.forall_mem_cons.mpr ⟨?_, ?_⟩,
        hbody.isWritable hbehind.append_right⟩
      · exact hfirst.isWritable hlexical.tail.append_left
      · exact hmore.forall hbehind.append_left fun _ _ => SpellsStep.isWritable
  | .call _ hname _ _, hlexical => hlexical.tail.head hname

theorem SpellsBlock.isWritable {body : List Statement} {tokens : List Token} :
    SpellsBlock body tokens → Lexical tokens → BodyIsWritable body
  | .nothing _ _, _ => trivial
  | .statements _ hfirst hmore _ _, hlexical =>
      ⟨hfirst.isWritable hlexical.tail.append_left,
        hmore.isWritable hlexical.tail.append_right.append_left⟩

theorem SpellsMore.isWritable {body : List Statement} {tokens : List Token} :
    SpellsMore body tokens → Lexical tokens → BodyIsWritable body
  | .nil, _ => trivial
  | .cons _ hfirst hmore, hlexical =>
      ⟨hfirst.isWritable hlexical.tail.append_left, hmore.isWritable hlexical.tail.append_right⟩

end

theorem SpellsRoutine.isWritable {routine : Routine} {tokens : List Token}
    (hspells : SpellsRoutine routine tokens) (hlexical : Lexical tokens) :
    routine.IsWritable := by
  cases hspells with
  | event _ _ _ hname hbody =>
      have hbehind := hlexical.tail.tail.tail
      exact ⟨by simp, hbehind.head hname, hbody.isWritable hbehind.tail⟩
  | process _ hname _ _ hbody =>
      exact ⟨by simp, hlexical.tail.head hname, hbody.isWritable hlexical.tail.tail.tail.tail⟩
  | function _ hname _ _ hbody =>
      exact ⟨by simp, hlexical.tail.head hname, hbody.isWritable hlexical.tail.tail.tail.tail⟩

/-- The routines of a script that lexemes spell are writable. -/
theorem Spells.isWritable {routines : List Routine} {tokens : List Token}
    (hspells : Spells routines tokens) (hlexical : Lexical tokens) :
    ∀ routine ∈ routines, routine.IsWritable := by
  induction hspells with
  | nil => exact List.forall_mem_nil _
  | cons hfirst _ ih =>
      exact List.forall_mem_cons.mpr
        ⟨hfirst.isWritable hlexical.append_left, ih hlexical.append_right⟩

end Blockscript.Script
