import Mathlib.Data.List.TakeWhile
import Blockscript.Proofs.Block.Independence
import Blockscript.Proofs.Dumping

/-!
How payloads are loaded.  A rendering asks for templates in order, up to the first that
cannot be had.  What it gives is made of the payloads of these templates, and it changes
the store only in that payloads that were read from their files are kept.
-/

namespace Blockscript

/-! ### Asking for payloads -/

namespace Store

def kept? (store : Store) (path : String) : Option Json :=
  store.payloads.lookup path

/-- Why a template cannot be had. -/
def refusal? (store : Store) (template : Option String) : Option Fault :=
  match store.payloadOf template with
  | .ok _ => none
  | .error fault => some fault

/-- Whether a template can be had. -/
def has (store : Store) (template : Option String) : Bool :=
  (store.refusal? template).isNone

/-- The payload of a template that can be had. -/
def given (store : Store) (template : Option String) : Json :=
  (store.payloadOf template).toOption.getD .null

def asking (store : Store) (template : Option String) : Store :=
  ((Store.payload template).run.run store).2

/-- The store after templates were asked for, up to the first that cannot be had. -/
def askingAll (store : Store) (templates : List (Option String)) : Store :=
  (templates.takeWhile store.has).foldl asking store

/-- A result that needs templates: the first that cannot be had is the fault. -/
def settle {α : Type} (store : Store) (templates : List (Option String)) (a : α) :
    Except Fault α :=
  match templates.findSome? store.refusal? with
  | none => .ok a
  | some fault => .error fault

variable {store : Store} {template : Option String} {path : String}

theorem has_eq_true_iff : store.has template = true ↔ store.refusal? template = none :=
  Option.isNone_iff_eq_none

theorem payloadOf_path (store : Store) (path : String) :
    store.payloadOf (some path) =
      ((store.kept? path).map Except.ok).getD (store.readPayload path) := by
  rw [payloadOf, Rendering.outcome, payload, run_payloadAt, kept?]
  cases store.payloads.lookup path with
  | some payload => rfl
  | none => cases store.readPayload path <;> rfl

theorem refusal?_eq_none_iff :
    store.refusal? template = none ↔ store.payloadOf template = .ok (store.given template) := by
  unfold refusal? given
  cases store.payloadOf template with
  | ok payload => exact ⟨fun _ => rfl, fun _ => rfl⟩
  | error fault => exact ⟨nofun, nofun⟩

/-- Asking for a path keeps the payload in its file, unless one is kept already. -/
theorem asking_path (store : Store) (path : String) :
    store.asking (some path) =
      { store with
        payloads :=
          if store.kept? path = none then
            (store.readPayload path).toOption.toList.map (path, ·) ++ store.payloads
          else store.payloads } := by
  rw [asking, payload, run_payloadAt, kept?]
  cases store.payloads.lookup path with
  | some payload => rfl
  | none => cases store.readPayload path <;> rfl

theorem kept?_asking (store : Store) (template : Option String) (path : String) :
    (store.asking template).kept? path = (store.kept? path).or
      (if template = some path then (store.readPayload path).toOption else none) := by
  cases template with
  | none =>
      rw [if_neg nofun, Option.or_none]
      rfl
  | some asked =>
      rw [asking_path, kept?]
      dsimp only
      by_cases hpath : path = asked
      · subst hpath
        rw [if_pos rfl]
        cases hkept : store.kept? path with
        | some payload => exact hkept
        | none =>
            rw [if_pos rfl, List.lookup_append, Option.none_or, ← kept?, hkept, Option.or_none]
            cases (store.readPayload path).toOption with
            | none => rfl
            | some payload => exact List.lookup_cons_self
      · have hother : (path == asked) = false := beq_eq_false_iff_ne.mpr hpath
        have hasked : some asked ≠ some path := fun h => hpath (Option.some.inj h).symm
        rw [if_neg hasked, Option.or_none]
        change _ = store.payloads.lookup path
        split
        · cases (store.readPayload asked).toOption with
          | none => rfl
          | some payload => simp [List.lookup_cons, hother]
        · rfl

@[simp]
theorem files_asking (store : Store) (template : Option String) :
    (store.asking template).files = store.files := by
  cases template with
  | none => rfl
  | some path => rw [asking_path]

/-- Files are read alike where there are the same files. -/
theorem readPayload_congr {store other : Store} (hfiles : store.text? path = other.text? path) :
    store.readPayload path = other.readPayload path := by
  rw [readPayload, readPayload, hfiles]

/-- To ask for a template does not change what can be had. -/
theorem payloadOf_asking (store : Store) (template other : Option String) :
    (store.asking template).payloadOf other = store.payloadOf other := by
  cases other with
  | none => rfl
  | some path =>
      have hread : (store.asking template).readPayload path = store.readPayload path :=
        readPayload_congr (by rw [text?, files_asking, text?])
      rw [payloadOf_path, payloadOf_path, kept?_asking, hread]
      cases store.kept? path with
      | some payload => rfl
      | none =>
          split
          · cases store.readPayload path <;> rfl
          · rfl

theorem payloadOf_foldl_asking (templates : List (Option String)) (store : Store) :
    (templates.foldl asking store).payloadOf = store.payloadOf := by
  induction templates generalizing store with
  | nil => rfl
  | cons template templates ih =>
      rw [List.foldl_cons, ih]
      exact funext (payloadOf_asking store template)

theorem files_foldl_asking (templates : List (Option String)) (store : Store) :
    (templates.foldl asking store).files = store.files := by
  induction templates generalizing store with
  | nil => rfl
  | cons template templates ih => rw [List.foldl_cons, ih, files_asking]

theorem kept?_foldl_asking (templates : List (Option String)) (store : Store) (path : String) :
    (templates.foldl asking store).kept? path = (store.kept? path).or
      (if some path ∈ templates then (store.readPayload path).toOption else none) := by
  induction templates generalizing store with
  | nil => simp
  | cons template templates ih =>
      have hread : (store.asking template).readPayload path = store.readPayload path :=
        readPayload_congr (by rw [text?, files_asking, text?])
      rw [List.foldl_cons, ih, kept?_asking, hread, Option.or_assoc]
      by_cases htemplate : template = some path
      · cases (store.readPayload path).toOption <;> simp [htemplate]
      · simp [htemplate, Ne.symm htemplate]

/-! What can be had stays the same while templates are asked for. -/

theorem payloadOf_askingAll (store : Store) (templates : List (Option String)) :
    (store.askingAll templates).payloadOf = store.payloadOf :=
  payloadOf_foldl_asking _ store

theorem refusal?_askingAll (store : Store) (templates : List (Option String)) :
    (store.askingAll templates).refusal? = store.refusal? := by
  funext template
  rw [refusal?, refusal?, payloadOf_askingAll]

theorem has_askingAll (store : Store) (templates : List (Option String)) :
    (store.askingAll templates).has = store.has := by
  funext template
  rw [has, has, refusal?_askingAll]

theorem given_askingAll (store : Store) (templates : List (Option String)) :
    (store.askingAll templates).given = store.given := by
  funext template
  rw [given, given, payloadOf_askingAll]

theorem settle_askingAll {α : Type} (store : Store) (templates others : List (Option String))
    (a : α) : (store.askingAll templates).settle others a = store.settle others a := by
  rw [settle, settle, refusal?_askingAll]

/-! How templates are asked for one list after the other. -/

section Append

variable {α : Type} {templates : List (Option String)}

theorem all_has (h : templates.findSome? store.refusal? = none) :
    ∀ template ∈ templates, store.has template = true :=
  fun template hmem => has_eq_true_iff.mpr (List.findSome?_eq_none_iff.mp h template hmem)

theorem askingAll_append (h : templates.findSome? store.refusal? = none)
    (others : List (Option String)) :
    store.askingAll (templates ++ others) = (store.askingAll templates).askingAll others := by
  have htaken : templates.takeWhile store.has = templates :=
    List.takeWhile_eq_self_iff.mpr (all_has h)
  rw [askingAll, List.takeWhile_append_of_pos (all_has h), List.foldl_append,
    askingAll.eq_1 (store.askingAll templates), has_askingAll, askingAll.eq_1 store templates,
    htaken]

theorem askingAll_append_of_some {fault : Fault}
    (h : templates.findSome? store.refusal? = some fault) (others : List (Option String)) :
    store.askingAll (templates ++ others) = store.askingAll templates := by
  obtain ⟨before, template, after, rfl, hrefused, -⟩ := List.findSome?_eq_some_iff.mp h
  have hnot : ¬ store.has template = true := by
    rw [has_eq_true_iff, hrefused]
    exact Option.some_ne_none fault
  rw [askingAll, askingAll, List.append_assoc, List.cons_append, List.takeWhile_append,
    List.takeWhile_append, List.takeWhile_cons_of_neg hnot, List.takeWhile_cons_of_neg hnot]

theorem settle_append (others : List (Option String)) (a : α) :
    store.settle (templates ++ others) a =
      (store.settle templates () >>= fun _ => store.settle others a) := by
  unfold settle
  rw [List.findSome?_append]
  cases templates.findSome? store.refusal? <;> rfl

end Append

end Store

/-! ### Renderings -/

/-- A rendering that asks for templates and makes its result of their payloads. -/
structure Embeds {α : Type} (templates : List (Option String)) (x : Rendering α)
    (f : (Option String → Json) → α) : Prop where
  run_eq : ∀ store : Store, x.run.run store =
    (store.settle templates (f store.given), store.askingAll templates)
  congr : ∀ payloads others : Option String → Json,
    (∀ template ∈ templates, payloads template = others template) → f payloads = f others

section Embeds

variable {α β : Type} {templates others : List (Option String)}

theorem embeds_pure (a : α) : Embeds [] (pure a) fun _ => a where
  run_eq _ := rfl
  congr _ _ _ := rfl

theorem embeds_payload (template : Option String) :
    Embeds [template] (Store.payload template) fun payloads => payloads template where
  run_eq store := by
    have hrun : (Store.payload template).run.run store =
        (store.payloadOf template, store.asking template) := rfl
    rw [hrun, Store.settle, Store.askingAll, List.findSome?_singleton]
    cases hpayload : store.payloadOf template with
    | ok payload => simp [Store.has, Store.refusal?, Store.given, hpayload, Except.toOption]
    | error fault =>
        rcases run_payload_cases template store with ⟨found, after, hfound, -⟩ | ⟨other, herror⟩
        · cases hpayload.symm.trans (congrArg Prod.fst (hrun.symm.trans hfound))
        · have hsame : store.asking template = store :=
            congrArg Prod.snd (hrun.symm.trans herror)
          simp [Store.has, Store.refusal?, hpayload, hsame]
  congr _ _ h := h template List.mem_cons_self

theorem Embeds.bind {x : Rendering α} {f : (Option String → Json) → α} {k : α → Rendering β}
    {g : α → (Option String → Json) → β} (hx : Embeds templates x f)
    (hk : ∀ a, Embeds others (k a) (g a)) :
    Embeds (templates ++ others) (x >>= k) fun payloads => g (f payloads) payloads where
  run_eq store := by
    have hrun := hx.run_eq store
    rw [Store.settle_append]
    unfold Store.settle at hrun
    rw [Store.settle.eq_1 store templates]
    cases hrefused : templates.findSome? store.refusal? with
    | none =>
        rw [hrefused] at hrun
        rw [run_bind_ok hrun, (hk _).run_eq, Store.settle_askingAll, Store.given_askingAll,
          Store.askingAll_append hrefused]
        rfl
    | some fault =>
        rw [hrefused] at hrun
        rw [run_bind_error hrun, Store.askingAll_append_of_some hrefused]
        rfl
  congr payloads others h := by
    have hfirst := hx.congr payloads others fun t ht => h t (List.mem_append_left _ ht)
    rw [hfirst]
    exact (hk _).congr payloads others fun t ht => h t (List.mem_append_right _ ht)

theorem Embeds.map {x : Rendering α} {f : (Option String → Json) → α}
    (hx : Embeds templates x f) (g : α → β) :
    Embeds templates (x >>= fun a => pure (g a)) fun payloads => g (f payloads) := by
  have h := hx.bind fun a => embeds_pure (g a)
  rwa [List.append_nil] at h

theorem embeds_mapM {asked : α → List (Option String)} {x : α → Rendering β}
    {f : (Option String → Json) → α → β} {as : List α}
    (hx : ∀ a ∈ as, Embeds (asked a) (x a) fun payloads => f payloads a) :
    Embeds (as.flatMap asked) (as.mapM x) fun payloads => as.map (f payloads) := by
  induction as with
  | nil => exact embeds_pure []
  | cons a as ih =>
      obtain ⟨hfirst, hrest⟩ := List.forall_mem_cons.mp hx
      rw [List.mapM_cons, List.flatMap_cons]
      exact hfirst.bind fun first => (ih hrest).map (first :: ·)

theorem Embeds.outcome_eq {x : Rendering α} {f : (Option String → Json) → α}
    (hx : Embeds templates x f) (store : Store) :
    x.outcome store = store.settle templates (f store.given) := by
  rw [Rendering.outcome, hx.run_eq]

end Embeds

/-! ### Programs -/

def Block.asked : Block → List (Option String)
  | .processCall _ template _ => [template]
  | _ => []

/-- The JSON of a block, made of the payloads of templates. -/
def Block.jsonFrom (payloads : Option String → Json) : Block → Json
  | .processCall name template kind =>
      (Block.processCall name template kind).json (payloads template)
  | block => block.json .null

theorem Block.embeds {block : Block} (hform : block ≠ .formless) :
    Embeds block.asked block.toJson fun payloads => block.jsonFrom payloads := by
  cases block with
  | processCall name template kind => exact (embeds_payload template).map _
  | formless => exact absurd rfl hform
  | _ => exact embeds_pure _

namespace CompiledRoutine

/-- A routine all of whose blocks have a form. -/
def IsFormed (routine : CompiledRoutine) : Prop :=
  ∀ block ∈ routine.blocks, block ≠ .formless

def asked (routine : CompiledRoutine) : List (Option String) :=
  routine.blocks.flatMap Block.asked

def jsonFrom (payloads : Option String → Json) (routine : CompiledRoutine) : Json :=
  Block.templateJson (routine.blocks.map (Block.jsonFrom payloads))

theorem IsFormed.embeds {routine : CompiledRoutine} (h : routine.IsFormed) :
    Embeds routine.asked routine.toJson fun payloads => routine.jsonFrom payloads := by
  rw [toJson, Block.template, Block.listToJson_eq_mapM]
  exact (embeds_mapM fun block hmem => Block.embeds (h block hmem)).map _

end CompiledRoutine

namespace Program

def asked (program : Program) : List (Option String) :=
  program.routines.flatMap CompiledRoutine.asked

def jsonFrom (payloads : Option String → Json) (program : Program) : Json :=
  .array (program.routines.map (CompiledRoutine.jsonFrom payloads))

/-- How a program is written, if no choice is made for it. -/
def style (program : Program) (compact : Option Bool) : Json.Style :=
  .ofCompact (compact.getD (program.settings.getD {}).compactJson)

variable {program : Program}

theorem embeds_toJson (h : ∀ routine ∈ program.routines, routine.IsFormed) :
    Embeds program.asked program.toJson fun payloads => program.jsonFrom payloads := by
  rw [toJson, CompiledRoutine.listToJson_eq_mapM]
  exact (embeds_mapM fun routine hmem => (h routine hmem).embeds).map _

theorem embeds_dumps (h : ∀ routine ∈ program.routines, routine.IsFormed)
    (compact : Option Bool) :
    Embeds program.asked (program.dumps compact) fun payloads =>
      (program.jsonFrom payloads).write (program.style compact) :=
  (embeds_toJson h).map _

end Program

/-! ### Compiled programs -/

theorem forall_mem_of_mapM {α β : Type} {f : α → Except Fault β} {P : β → Prop}
    (hf : ∀ a b, f a = .ok b → P b) {as : List α} {bs : List β} (h : as.mapM f = .ok bs) :
    ∀ b ∈ bs, P b := by
  induction as generalizing bs with
  | nil =>
      cases h
      exact List.forall_mem_nil _
  | cons a as ih =>
      rw [List.mapM_cons] at h
      obtain ⟨b, hb, h⟩ := bind_eq_ok h
      obtain ⟨more, hmore, h⟩ := bind_eq_ok h
      cases h
      exact List.forall_mem_cons.mpr ⟨hf a b hb, ih hmore⟩

/-- A routine whose blocks have in them what a compiler puts there. -/
def CompiledRoutine.Obeys (compiler : Compiler) (routine : CompiledRoutine) : Prop :=
  ∀ block ∈ routine.blocks, block.Obeys compiler.settings compiler.render

theorem obeys_of_compile {compiler : Compiler} {source : String} {records : List LogRecord}
    {program : Program} (h : (compiler.compile source).outcome records = .ok program) :
    ∀ routine ∈ program.routines, routine.Obeys compiler := by
  obtain ⟨routines, -, hroutines, -⟩ := Compiler.exists_of_compile compiler h
  refine forall_mem_of_mapM (fun routine compiled hlower => ?_) hroutines
  obtain ⟨blocks, hblocks, hlower⟩ := bind_eq_ok hlower
  cases hlower
  exact obeys_routine hblocks

namespace CompiledRoutine.Obeys

variable {compiler : Compiler} {routine : CompiledRoutine}

theorem isFormed (h : routine.Obeys compiler) : routine.IsFormed := by
  rintro block hmem rfl
  exact h _ hmem

/-- The process calls of a compiled routine have the template of the settings. -/
theorem eq_of_mem_asked (h : routine.Obeys compiler) {template : Option String}
    (hasked : template ∈ routine.asked) : template = compiler.settings.processTemplatePath := by
  obtain ⟨block, hmem, htemplate⟩ := List.mem_flatMap.mp hasked
  have hblock := h block hmem
  cases block with
  | processCall name found kind =>
      obtain rfl := List.mem_singleton.mp htemplate
      exact hblock
  | _ => exact absurd htemplate List.not_mem_nil

end CompiledRoutine.Obeys

end Blockscript
