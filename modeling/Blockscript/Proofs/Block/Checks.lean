import Mathlib.Data.List.Forall2
import Blockscript.Proofs.Block.Nesting

/-!
The faults of lowering.  A body is checked in one traversal: statements from first to
last, and in each its form, its subject, its variable, its arguments slot by slot, the
steps of a selection, and its own body at the end.  Lowering reports the first check
that fails, and succeeds if none does.
-/

namespace Blockscript

open Script (Value Subject Step Statement)

/-! ### The traversal -/

/-- What is checked while a body is lowered. -/
inductive Check where
  /-- A statement is no stray part of a tree. -/
  | form (statement : Statement)
  /-- The subject of an action or a condition is a known one. -/
  | subject (subject : Subject)
  /-- A slot lies within the chest. -/
  | slot (n : Nat)
  /-- A value can be rendered. -/
  | rendering (value : Value)

def Check.fault? : Check → Option Fault
  | .form (.stray what) => some (.noStatement what)
  | .subject (.other word) => some (.unknownName word)
  | .slot n => if n ≤ 26 then none else some (.slotOutside n)
  | .rendering .formless => some .formlessValue
  | _ => none

/-- The checks of arguments from a slot on: each slot before the value in it. -/
def argumentChecks : Nat → List Value → List Check
  | _, [] => []
  | slot, value :: values => .slot slot :: .rendering value :: argumentChecks (slot + 1) values

mutual

/-- The checks of a statement and of the statements in it. -/
def statementChecks : Statement → List Check
  | .action subject name arguments =>
      .form (.action subject name arguments) :: .subject subject :: argumentChecks 0 arguments
  | .assignment target operator verb arguments =>
      .form (.assignment target operator verb arguments) :: .rendering target ::
        argumentChecks 1 arguments
  | .condition subject name arguments body negated =>
      .form (.condition subject name arguments body negated) :: .subject subject ::
        (argumentChecks 0 arguments ++ bodyChecks body)
  | .variableCondition target operator name arguments body =>
      .form (.variableCondition target operator name arguments body) :: .rendering target ::
        (argumentChecks 1 arguments ++ bodyChecks body)
  | .otherwise body => .form (.otherwise body) :: bodyChecks body
  | .selection steps body =>
      .form (.selection steps body) ::
        (steps.flatMap (fun step => argumentChecks 1 step.arguments) ++ bodyChecks body)
  | .call name process => [.form (.call name process)]
  | .stray what => [.form (.stray what)]

def bodyChecks : List Statement → List Check
  | [] => []
  | statement :: rest => statementChecks statement ++ bodyChecks rest

end

/-! ### Reporting the first fault -/

/-- A result that is the first fault of some checks, or a success if there is none. -/
def Reports {α : Type} (checks : List Check) (result : Except Fault α) : Prop :=
  (∃ fault, checks.findSome? Check.fault? = some fault ∧ result = .error fault) ∨
    (checks.findSome? Check.fault? = none ∧ ∃ a, result = .ok a)

section Reports

variable {α β : Type} {checks : List Check}

theorem reports_ok (a : α) : Reports [] (.ok a) :=
  .inr ⟨rfl, a, rfl⟩

/-- A check that passes says nothing. -/
theorem Reports.cons {check : Check} (hcheck : check.fault? = none) {result : Except Fault α}
    (h : Reports checks result) : Reports (check :: checks) result := by
  unfold Reports
  rw [List.findSome?_cons, hcheck]
  exact h

/-- What is computed first is checked first. -/
theorem Reports.bind {later : List Check} {x : Except Fault α} {f : α → Except Fault β}
    (hx : Reports checks x) (hf : ∀ a, Reports later (f a)) :
    Reports (checks ++ later) (x >>= f) := by
  unfold Reports
  rw [List.findSome?_append]
  rcases hx with ⟨fault, hfault, rfl⟩ | ⟨hnone, a, rfl⟩
  · exact .inl ⟨fault, by rw [hfault, Option.some_or], rfl⟩
  · rw [hnone, Option.none_or]
    exact hf a

theorem Reports.map {x : Except Fault α} (hx : Reports checks x) (f : α → β) :
    Reports checks (x >>= fun a => .ok (f a)) := by
  have h := hx.bind fun a => reports_ok (f a)
  rwa [List.append_nil] at h

theorem Reports.eq_error_iff {result : Except Fault α} (h : Reports checks result)
    (fault : Fault) : result = .error fault ↔ checks.findSome? Check.fault? = some fault := by
  rcases h with ⟨found, hfound, rfl⟩ | ⟨hnone, a, rfl⟩
  · rw [hfound, Except.error.injEq, Option.some.injEq]
  · rw [hnone]
    exact ⟨nofun, nofun⟩

end Reports

/-! ### Lowering reports the first fault -/

theorem reports_kind (kinds : SubjectKinds) (subject : Subject) :
    Reports [.subject subject] (kinds.of subject) := by
  cases subject with
  | other word => exact .inl ⟨_, rfl, rfl⟩
  | _ => exact .inr ⟨rfl, _, rfl⟩

theorem reports_renderValue (value : Value) :
    Reports [.rendering value] (renderValue value) := by
  cases value with
  | formless => exact .inl ⟨_, rfl, rfl⟩
  | _ => exact .inr ⟨rfl, _, rfl⟩

theorem reports_slotOf (n : Nat) : Reports [.slot n] (Item.slotOf n) := by
  unfold Item.slotOf
  by_cases hn : n ≤ 26
  · have hinside : (0 : Int) ≤ n ∧ (n : Int) ≤ lastSlot := ⟨by omega, Int.ofNat_le.mpr hn⟩
    rw [dif_pos hinside]
    exact .inr ⟨by simp [Check.fault?, hn], _, rfl⟩
  · have houtside : ¬ ((0 : Int) ≤ n ∧ (n : Int) ≤ lastSlot) := by
      rintro ⟨-, hle⟩
      exact hn (Int.ofNat_le.mp hle)
    rw [dif_neg houtside]
    exact .inl ⟨_, by simp [Check.fault?, hn], rfl⟩

theorem reports_make (value : Value) (n : Nat) :
    Reports [.slot n, .rendering value] (Item.make renderValue value n) :=
  (reports_slotOf n).bind fun _ => (reports_renderValue value).map _

theorem reports_row (values : List Value) (n : Nat) :
    Reports (argumentChecks n values) (Item.row renderValue values n) := by
  induction values generalizing n with
  | nil => exact reports_ok []
  | cons value values ih =>
      rw [Item.row]
      exact (reports_make value n).bind fun item => (ih (n + 1)).map (item :: ·)

theorem reports_rowAfter (target : Value) (values : List Value) :
    Reports (.rendering target :: argumentChecks 1 values)
      (Item.rowAfter renderValue target values) := by
  have hsubject : Reports [.rendering target] (Item.subject renderValue target) :=
    (reports_renderValue target).map _
  exact hsubject.bind fun first => (reports_row values 1).map (first :: ·)

theorem reports_steps (steps : List Step) :
    Reports (steps.flatMap fun step => argumentChecks 1 step.arguments)
      (lowerSteps renderValue steps) := by
  induction steps with
  | nil => exact reports_ok []
  | cons step steps ih =>
      have hstep : Reports (argumentChecks 1 step.arguments) (lowerStep renderValue step) :=
        (reports_row step.arguments 1).map _
      exact hstep.bind fun block => ih.map (block :: ·)

section Lowering

variable (settings : Settings)

mutual

theorem reports_statement : (statement : Statement) →
    Reports (statementChecks statement) (lowerStatement settings renderValue statement)
  | .action subject name arguments => by
      rw [statementChecks, lowerStatement]
      exact .cons rfl ((reports_kind actionKinds subject).bind fun kind =>
        (reports_row arguments 0).map _)
  | .assignment target operator verb arguments => by
      rw [statementChecks, lowerStatement]
      exact .cons rfl ((reports_rowAfter target arguments).map _)
  | .condition subject name arguments body negated => by
      rw [statementChecks, lowerStatement]
      exact .cons rfl ((reports_kind conditionKinds subject).bind fun kind =>
        (reports_row arguments 0).bind fun items => (reports_body body).map _)
  | .variableCondition target operator name arguments body => by
      rw [statementChecks, lowerStatement]
      exact .cons rfl ((reports_rowAfter target arguments).bind fun items =>
        (reports_body body).map _)
  | .otherwise body => by
      rw [statementChecks, lowerStatement]
      exact .cons rfl ((reports_body body).map _)
  | .selection steps body => by
      rw [statementChecks, lowerStatement]
      exact .cons rfl ((reports_steps steps).bind fun selected => (reports_body body).map _)
  | .call name true => .cons rfl (reports_ok _)
  | .call name false => .cons rfl (reports_ok _)
  | .stray what => .inl ⟨_, rfl, rfl⟩

/-- Lowering a body reports the first fault of its checks. -/
theorem reports_body : (body : List Statement) →
    Reports (bodyChecks body) (lowerBody settings renderValue body)
  | [] => reports_ok []
  | statement :: rest => by
      rw [bodyChecks, lowerBody]
      exact (reports_statement statement).bind fun blocks => (reports_body rest).map _

end

/-- The blocks of a body are those of its statements, one after the other. -/
theorem lowerBody_eq_ok_iff (body : List Statement) (blocks : List Block) :
    lowerBody settings renderValue body = .ok blocks ↔
      ∃ parts, List.Forall₂
        (fun statement part => lowerStatement settings renderValue statement = .ok part)
        body parts ∧ blocks = parts.flatten := by
  induction body generalizing blocks with
  | nil =>
      rw [lowerBody, Except.ok.injEq]
      constructor
      · rintro rfl
        exact ⟨[], .nil, rfl⟩
      · rintro ⟨parts, hparts, rfl⟩
        cases hparts
        rfl
  | cons statement rest ih =>
      rw [lowerBody]
      constructor
      · intro h
        obtain ⟨first, hfirst, h⟩ := bind_eq_ok h
        obtain ⟨more, hmore, h⟩ := bind_eq_ok h
        cases h
        obtain ⟨parts, hparts, rfl⟩ := (ih more).mp hmore
        exact ⟨first :: parts, .cons hfirst hparts, rfl⟩
      · rintro ⟨parts, hparts, rfl⟩
        cases hparts with
        | cons hfirst hrest =>
            rw [hfirst, (ih _).mpr ⟨_, hrest, rfl⟩]
            rfl

/-- Lowering reports the first fault in the order of the traversal, and only real
faults.  It fails with a fault exactly when a check fails with that fault and all checks
before it pass; it gives exactly the blocks of the statements, one after the other; and
it fails if some check fails anywhere in the body. -/
theorem lowerBody_reports_first (body : List Statement) :
    (∀ fault, lowerBody settings renderValue body = .error fault ↔
      ∃ passed check rest, bodyChecks body = passed ++ check :: rest ∧
        (∀ earlier ∈ passed, earlier.fault? = none) ∧ check.fault? = some fault) ∧
    (∀ blocks, lowerBody settings renderValue body = .ok blocks ↔
      ∃ parts, List.Forall₂
        (fun statement part => lowerStatement settings renderValue statement = .ok part)
        body parts ∧ blocks = parts.flatten) ∧
    ((∃ fault, lowerBody settings renderValue body = .error fault) ↔
      ∃ check ∈ bodyChecks body, check.fault? ≠ none) := by
  have hreports := reports_body settings body
  refine ⟨fun fault => ?_, lowerBody_eq_ok_iff settings body, ?_⟩
  · rw [hreports.eq_error_iff, List.findSome?_eq_some_iff]
    constructor
    · rintro ⟨passed, check, rest, hchecks, hcheck, hpassed⟩
      exact ⟨passed, check, rest, hchecks, hpassed, hcheck⟩
    · rintro ⟨passed, check, rest, hchecks, hpassed, hcheck⟩
      exact ⟨passed, check, rest, hchecks, hcheck, hpassed⟩
  · simp only [hreports.eq_error_iff]
    rw [← Option.isSome_iff_exists, List.findSome?_isSome_iff]
    simp only [Option.isSome_iff_ne_none]

end Lowering

-- The action has one argument too many, and it comes before the unknown subject, the value
-- without a form and the stray step.
example : lowerBody {} renderValue
    [.otherwise [.action .player "give" (List.replicate 28 (.number "1"))],
      .condition (.other "crowd") "isNear" [.formless] [.stray .step] false] =
    .error (.slotOutside 27) := rfl

end Blockscript
