import Blockscript.Proofs.Block.Shown
import Blockscript.Proofs.Concatenating

/-!
The texts of compiled programs.  Apart from the payload of process calls, which is the
same wherever it is read, a program is printed from the marks of its routines; so two
programs have the same text exactly when their scripts have the same essence.
-/

namespace Blockscript

open Script (Routine)

/-! ### Computations that read the payload -/

/-- What a computation that reads templates comes to, from the given store on. -/
def Rendering.outcome {α : Type} (x : Rendering α) (store : Store) : Except Fault α :=
  (x.run.run store).1

/-- What reading the payload of process calls comes to. -/
def Store.payloadOf (store : Store) (template : Option String) : Except Fault Json :=
  (Store.payload template).outcome store

/-- A computation that depends on the store by the payload only: it gives `f payload`
and leaves a store with the same payload.  Where there is no payload it fails if it
needs one, and changes nothing. -/
structure Draws {α : Type} (template : Option String) (needs : Prop) (x : Rendering α)
    (f : Json → α) : Prop where
  given : ∀ store payload, store.payloadOf template = .ok payload →
    ∃ after, x.run.run store = (.ok (f payload), after) ∧
      Store.payloadOf after template = .ok payload
  refused : ∀ store fault, store.payloadOf template = .error fault →
    (needs → x.run.run store = (.error fault, store)) ∧
      (¬ needs → ∀ payload, x.run.run store = (.ok (f payload), store))

section Draws

variable {α β : Type} {template : Option String}

theorem draws_pure (a : α) : Draws template False (pure a) fun _ => a where
  given store _ hpayload := ⟨store, rfl, hpayload⟩
  refused _ _ _ := ⟨False.elim, fun _ _ => rfl⟩

theorem Draws.congr {p q : Prop} {x : Rendering α} {f : Json → α} (hx : Draws template p x f)
    (hpq : p ↔ q) : Draws template q x f := by
  rwa [propext hpq] at hx

theorem run_bind_ok {σ : Type} {x : ExceptT Fault (StateM σ) α} {k : α → ExceptT Fault (StateM σ) β}
    {a : α} {before after : σ} (h : x.run.run before = (.ok a, after)) :
    (x >>= k).run.run before = (k a).run.run after := by
  simp only [ExceptT.run_bind, StateT.run_bind, h]
  rfl

theorem run_bind_error {σ : Type} {x : ExceptT Fault (StateM σ) α}
    {k : α → ExceptT Fault (StateM σ) β} {fault : Fault} {before after : σ}
    (h : x.run.run before = (.error fault, after)) :
    (x >>= k).run.run before = (.error fault, after) := by
  simp only [ExceptT.run_bind, StateT.run_bind, h]
  rfl

theorem Draws.bind {p q : Prop} {x : Rendering α} {f : Json → α} {k : α → Rendering β}
    {g : α → Json → β} (hx : Draws template p x f) (hk : ∀ a, Draws template q (k a) (g a)) :
    Draws template (p ∨ q) (x >>= k) fun payload => g (f payload) payload where
  given store payload hpayload := by
    obtain ⟨after, hrun, hafter⟩ := hx.given store payload hpayload
    rw [run_bind_ok hrun]
    exact (hk _).given after payload hafter
  refused store fault hfault := by
    obtain ⟨hneeds, hspares⟩ := hx.refused store fault hfault
    refine ⟨fun hor => ?_, fun hor payload => ?_⟩
    · by_cases hp : p
      · exact run_bind_error (hneeds hp)
      · rw [run_bind_ok (hspares hp .null)]
        exact ((hk _).refused store fault hfault).1 (hor.resolve_left hp)
    · obtain ⟨hp, hq⟩ := not_or.mp hor
      rw [run_bind_ok (hspares hp payload)]
      exact ((hk _).refused store fault hfault).2 hq payload

theorem Draws.map {p : Prop} {x : Rendering α} {f : Json → α} (hx : Draws template p x f)
    (g : α → β) : Draws template p (x >>= fun a => pure (g a)) fun payload => g (f payload) :=
  (hx.bind fun a => draws_pure (g a)).congr (Iff.of_eq (or_false p))

/-- Computations for related elements in order. -/
theorem draws_mapM {γ δ : Type} {R : γ → α → Prop} {needs : γ → Prop} {x : α → Rendering δ}
    {f : Json → α → δ}
    (hx : ∀ c a, R c a → Draws template (needs c) (x a) fun payload => f payload a)
    {cs : List γ} {as : List α} (hrel : List.Forall₂ R cs as) :
    Draws template (∃ c ∈ cs, needs c) (as.mapM x) fun payload => as.map (f payload) := by
  induction hrel with
  | nil => exact (draws_pure []).congr (by simp)
  | cons hfirst _ ih =>
      rw [List.mapM_cons]
      exact ((hx _ _ hfirst).bind fun first => ih.map (first :: ·)).congr (by simp)

theorem Draws.exists_outcome {p : Prop} {x : Rendering α} {f : Json → α}
    (hx : Draws template p x f) {store : Store} {payload : Json}
    (hpayload : store.payloadOf template = .ok payload) : x.outcome store = .ok (f payload) := by
  obtain ⟨after, hrun, -⟩ := hx.given store payload hpayload
  rw [Rendering.outcome, hrun]

/-- Two computations give the same where what they draw from any payload is the same. -/
theorem Draws.outcome_iff {p q same : Prop} {x y : Rendering α} {f g : Json → α}
    (hx : Draws template p x f) (hy : Draws template q y g) (hneeds : same → (p ↔ q))
    (hsame : ∀ payload, f payload = g payload ↔ same) {store : Store} {a : α}
    (hout : x.outcome store = .ok a) : y.outcome store = .ok a ↔ same := by
  cases hpayload : store.payloadOf template with
  | ok payload =>
      obtain rfl : f payload = a := Except.ok.inj ((hx.exists_outcome hpayload).symm.trans hout)
      rw [hy.exists_outcome hpayload, Except.ok.injEq, eq_comm, hsame]
  | error fault =>
      obtain ⟨hfails, hspares⟩ := hx.refused store fault hpayload
      obtain ⟨hfails', hspares'⟩ := hy.refused store fault hpayload
      have hp : ¬ p := by
        intro hp
        rw [Rendering.outcome, hfails hp] at hout
        contradiction
      rw [Rendering.outcome, hspares hp .null] at hout
      obtain rfl := Except.ok.inj hout
      by_cases hq : q
      · -- The second cannot do without the payload, so it is not the same as the first.
        rw [Rendering.outcome, hfails' hq]
        exact ⟨nofun, fun h => absurd ((hneeds h).mpr hq) hp⟩
      · rw [Rendering.outcome, hspares' hq .null, Except.ok.injEq, eq_comm, hsame]

end Draws

/-- How the payload at a path is read. -/
theorem run_payloadAt (path : String) (store : Store) :
    (Store.payloadAt path).run.run store =
      match store.payloads.lookup path, store.readPayload path with
      | some payload, _ => (.ok payload, store)
      | none, .ok payload =>
          (.ok payload, { store with payloads := (path, payload) :: store.payloads })
      | none, .error fault => (.error fault, store) := by
  rw [Store.payloadAt]
  simp only [run_bind_ok (show (get : Rendering Store).run.run store = (.ok store, store) from rfl)]
  cases store.payloads.lookup path with
  | some payload => rfl
  | none => cases store.readPayload path <;> rfl

/-- A payload that has been read is read again, and a failure changes nothing. -/
theorem run_payload_cases (template : Option String) (store : Store) :
    (∃ payload after, (Store.payload template).run.run store = (.ok payload, after) ∧
      (Store.payload template).run.run after = (.ok payload, after)) ∨
    ∃ fault, (Store.payload template).run.run store = (.error fault, store) := by
  cases template with
  | none => exact .inl ⟨packagedPayload, store, rfl, rfl⟩
  | some path =>
      simp only [Store.payload, run_payloadAt]
      cases hkept : store.payloads.lookup path with
      | some kept => exact .inl ⟨kept, store, rfl, by rw [hkept]⟩
      | none =>
          cases store.readPayload path with
          | ok found => exact .inl ⟨found, _, rfl, by rw [List.lookup_cons_self]⟩
          | error fault => exact .inr ⟨fault, rfl⟩

theorem draws_payload (template : Option String) :
    Draws template True (Store.payload template) id where
  given store payload hpayload := by
    rcases run_payload_cases template store with ⟨found, after, hrun, hagain⟩ | ⟨fault, hrun⟩
    · rw [Store.payloadOf, Rendering.outcome, hrun] at hpayload
      cases hpayload
      exact ⟨after, hrun, by rw [Store.payloadOf, Rendering.outcome, hagain]⟩
    · rw [Store.payloadOf, Rendering.outcome, hrun] at hpayload
      contradiction
  refused store fault hfault := by
    refine ⟨fun _ => ?_, fun h => absurd trivial h⟩
    rcases run_payload_cases template store with ⟨found, after, hrun, -⟩ | ⟨other, hrun⟩
    · rw [Store.payloadOf, Rendering.outcome, hrun] at hfault
      contradiction
    · rw [Store.payloadOf, Rendering.outcome, hrun] at hfault
      cases hfault
      exact hrun

/-! ### Programs -/

namespace Block

theorem listToJson_eq_mapM (blocks : List Block) : listToJson blocks = blocks.mapM toJson := by
  induction blocks with
  | nil => rfl
  | cons block blocks ih => rw [listToJson, List.mapM_cons, ih]

end Block

/-- What is shown of a process call has the payload in it. -/
def Shown.HasPayload : Shown → Prop
  | .processCall _ => True
  | _ => False

theorem Block.Shows.draws {template : Option String} {block : Block} {shown : Shown}
    (h : block.Shows template shown) :
    Draws template shown.HasPayload block.toJson fun payload => block.json payload := by
  cases h with
  | processCall name => exact (draws_payload template).map _
  | _ => exact draws_pure _

/-- The JSON of a routine, with the payload of process calls. -/
def CompiledRoutine.json (payload : Json) (routine : CompiledRoutine) : Json :=
  Block.templateJson (routine.blocks.map (Block.json payload))

/-- A routine that was lowered from the marks of an essence whose selections are kept
apart. -/
structure CompiledRoutine.IsLowered (settings : Settings) (essence : Essence.Routine)
    (routine : CompiledRoutine) : Prop where
  separated : Essence.BodySeparated false essence.body
  blocks : List.Forall₂ (Marked settings) essence.marks routine.blocks

/-- An essence in which a process is called. -/
def Essence.Routine.HasPayload (settings : Settings) (essence : Essence.Routine) : Prop :=
  ∃ mark ∈ essence.marks, (mark.shown settings).HasPayload

section Programs

variable {settings : Settings}

theorem CompiledRoutine.IsLowered.draws {essence : Essence.Routine} {routine : CompiledRoutine}
    (h : routine.IsLowered settings essence) :
    Draws settings.processTemplatePath (essence.HasPayload settings) routine.toJson
      fun payload => routine.json payload := by
  rw [CompiledRoutine.toJson, Block.template, Block.listToJson_eq_mapM]
  exact (draws_mapM (fun _ _ hmarked => hmarked.shows.draws) h.blocks).map _

theorem CompiledRoutine.listToJson_eq_mapM (routines : List CompiledRoutine) :
    listToJson routines = routines.mapM toJson := by
  induction routines with
  | nil => rfl
  | cons routine routines ih => rw [listToJson, List.mapM_cons, ih]

/-- A program that was lowered from essences. -/
structure Program.IsLowered (settings : Settings) (essences : List Essence.Routine)
    (program : Program) : Prop where
  settings_eq : program.settings = some settings
  routines : List.Forall₂ (CompiledRoutine.IsLowered settings) essences program.routines

/-- The text of a program, with the payload of process calls. -/
def Program.text (settings : Settings) (compact : Option Bool) (program : Program)
    (payload : Json) : String :=
  (Json.array (program.routines.map (CompiledRoutine.json payload))).write
    (.ofCompact (compact.getD settings.compactJson))

theorem Program.IsLowered.draws {essences : List Essence.Routine} {program : Program}
    (h : program.IsLowered settings essences) (compact : Option Bool) :
    Draws settings.processTemplatePath (∃ essence ∈ essences, essence.HasPayload settings)
      (program.dumps compact) (program.text settings compact) := by
  rw [Program.dumps, Program.toJson, CompiledRoutine.listToJson_eq_mapM, h.settings_eq]
  exact ((draws_mapM (fun _ _ hroutine => hroutine.draws) h.routines).map _).map _

/-- Related lists are the same exactly when what they are related to is. -/
theorem forall₂_iff_eq {α β : Type} {R : α → β → Prop} {S : β → β → Prop}
    (hS : ∀ a b c d, R a c → R b d → (S c d ↔ a = b)) {as bs : List α} {cs ds : List β}
    (hcs : List.Forall₂ R as cs) (hds : List.Forall₂ R bs ds) :
    List.Forall₂ S cs ds ↔ as = bs := by
  induction hcs generalizing bs ds with
  | nil => cases hds <;> simp
  | cons hfirst _ ih =>
      cases hds with
      | nil => simp
      | cons hother hrest =>
          rw [List.forall₂_cons, hS _ _ _ _ hfirst hother, ih hrest, List.cons.injEq]

/-- Routines have the same text exactly when they were lowered from the same essence. -/
theorem CompiledRoutine.IsLowered.same_iff {essence found : Essence.Routine}
    {routine other : CompiledRoutine} (hroutine : routine.IsLowered settings essence)
    (hother : other.IsLowered settings found) (payload : Json) {style : Json.Style} {level : Nat} :
    Json.Same style level (routine.json payload) (other.json payload) ↔ essence = found := by
  have hmarks : essence.marks = found.marks ↔ essence = found :=
    ⟨Essence.Routine.marks_inj hroutine.separated hother.separated,
      congrArg Essence.Routine.marks⟩
  have hblocks : ∀ level, List.Forall₂
      (fun left right => Json.Same style level (left.json payload) (right.json payload))
      routine.blocks other.blocks ↔ essence.marks = found.marks :=
    fun level => forall₂_iff_eq
      (fun _ _ _ _ hblock hfound => hblock.same_iff settings hfound payload)
      hroutine.blocks hother.blocks
  simp [CompiledRoutine.json, Block.templateJson, Json.same_ofFields_iff, Json.same_array_iff,
    hblocks, hmarks]

/-- Programs have the same text exactly when they were lowered from the same essences. -/
theorem Program.IsLowered.text_eq_iff {essences others : List Essence.Routine}
    {program result : Program} (hprogram : program.IsLowered settings essences)
    (hresult : result.IsLowered settings others) (compact : Option Bool) (payload : Json) :
    program.text settings compact payload = result.text settings compact payload ↔
      essences = others := by
  rw [Program.text, Program.text, Json.write_inj, Json.same_array_iff, List.forall₂_map_left_iff,
    List.forall₂_map_right_iff]
  exact forall₂_iff_eq (fun _ _ _ _ hroutine hother => hroutine.same_iff hother payload)
    hprogram.routines hresult.routines

/-- A compiled program was lowered from the essences of its script. -/
theorem isLowered_of_compile {source : String} {routines : List Routine}
    {records : List LogRecord} {program : Program} (hparse : Script.parse source = .ok routines)
    (hcompile : compileOutcome settings source records = .ok program)
    (hseparated : ∀ routine ∈ routines, routine.Separated) :
    program.IsLowered settings (routines.map Routine.essence) := by
  obtain ⟨pieces, last, -, hspaced, -, hspells⟩ := Script.parse_eq_ok_iff_spells.mp hparse
  have hwritable := hspells.isWritable (hspaced.cut.lexical {})
  have hcompiled := (logsSettled_compile settings hparse records).of_ok hcompile
  obtain ⟨-, -, -, hsettings⟩ := Compiler.exists_of_compile _ hcompile
  refine ⟨hsettings, List.forall₂_map_left_iff.mpr ?_⟩
  have hall := (List.forall₂_and_left _ _).mpr
    ⟨fun routine hmem => And.intro (hwritable routine hmem) (hseparated routine hmem), hcompiled⟩
  refine hall.imp fun routine compiled h => ?_
  obtain ⟨⟨hroutine, hapart⟩, hcompiles⟩ := h
  exact ⟨hapart.essence hroutine.2.2, marked_routine settings hroutine hcompiles.lowered⟩

end Programs

/-! ### A selection -/

/-- An event in which a process is started for a selection. -/
def visit (event step : String) : List Script.Piece :=
  [⟨[], .event, "event"⟩, ⟨[' '], .player, "player"⟩, ⟨[], .dot, "."⟩, ⟨[], .ident, event⟩,
   ⟨[' '], .leftBrace, "\x7b"⟩, ⟨[], .select, "select"⟩, ⟨[' '], .ident, step⟩,
   ⟨[], .doubleColon, "::"⟩, ⟨[], .ident, "nil"⟩, ⟨[], .leftParen, "("⟩, ⟨[], .rightParen, ")"⟩,
   ⟨[' '], .leftBrace, "\x7b"⟩, ⟨[], .start, "start"⟩, ⟨[' '], .ident, "wave"⟩,
   ⟨[], .leftParen, "("⟩, ⟨[], .rightParen, ")"⟩, ⟨[], .rightBrace, "\x7d"⟩,
   ⟨[], .rightBrace, "\x7d"⟩]

def visitRoutine (event step : String) : Routine :=
  ⟨.event, event, [.selection [⟨step, "nil", []⟩] [.call "wave" true]], 1, 14⟩

theorem parse_visit {event step : String} (hevent : Script.IsName event.toList)
    (hstep : Script.IsName step.toList) :
    Script.parse (String.ofList (Script.written (visit event step) [])) =
      .ok [visitRoutine event step] := by
  have hblank : Script.IsLayout [' '] := .blank (by decide) .nil
  have hnil : Script.IsName "nil".toList :=
    .intro (by decide) (List.all_eq_true.mp (by decide)) (by decide)
  have hwave : Script.IsName "wave".toList :=
    .intro (by decide) (List.all_eq_true.mp (by decide)) (by decide)
  have hcut : Script.Cut (visit event step) [] :=
    .cons .nil rfl nofun (.cons hblank rfl nofun (.cons .nil rfl nofun (.cons .nil hevent nofun
      (.cons hblank rfl nofun (.cons .nil rfl nofun (.cons hblank hstep nofun
        (.cons .nil rfl nofun (.cons .nil hnil nofun (.cons .nil rfl nofun (.cons .nil rfl nofun
          (.cons hblank rfl nofun (.cons .nil rfl nofun (.cons hblank hwave nofun
            (.cons .nil rfl nofun (.cons .nil rfl nofun (.cons .nil rfl nofun
              (.cons .nil rfl nofun .nil)))))))))))))))))
  have hroutine : ∃ routine, Script.SpellsRoutine routine
      (Script.placed {} (visit event step)) ∧ routine = visitRoutine event step :=
    ⟨_, .event rfl rfl rfl rfl (.statements rfl
      (.selection rfl (.step rfl rfl rfl (.nothing rfl rfl)) .nil
        (.statements rfl (@Script.SpellsStatement.call true _ _ _ _ rfl rfl rfl rfl) .nil .absent
          rfl)) .nil .absent rfl), rfl⟩
  obtain ⟨routine, hroutine, rfl⟩ := hroutine
  have hchain : (visit event step).IsChain Script.Unambiguous := by
    simp [visit, Script.Unambiguous, Script.Terminal.opensValue]
  have hspells := Script.Spells.cons hroutine .nil
  rw [List.append_nil] at hspells
  exact Script.parse_eq_ok_iff_spells.mpr
    ⟨visit event step, [], String.toList_ofList, ⟨hcut, .closed .nil⟩, hchain, hspells⟩

theorem exists_program_visit {event step : String} (hevent : Script.IsName event.toList)
    (hstep : Script.IsName step.toList) (settings : Settings) (records : List LogRecord) :
    ∃ program, compileOutcome settings
      (String.ofList (Script.written (visit event step) [])) records = .ok program := by
  rcases logsSettled_compile settings (parse_visit hevent hstep) records with
    ⟨⟨routine, hmem, hfull⟩, -⟩ | ⟨-, program, hok, -⟩
  · obtain rfl := List.mem_singleton.mp hmem
    simp [visitRoutine, BodyOverfull, Overfull] at hfull
  · exact ⟨program, hok⟩

/-! ### The text of a program determines its script -/

/-- The text of a program determines its script up to the essence.  Where selections are
kept apart, a program that has a text has the same one as another exactly when the
routines of their scripts have the same essences; and a program has a text if the
payload of process calls is packaged or can be read. -/
theorem same_text_iff {settings : Settings} {source other : String}
    {routines others : List Routine} {records : List LogRecord} {program result : Program}
    (hparse : Script.parse source = .ok routines) (hother : Script.parse other = .ok others)
    (hprogram : compileOutcome settings source records = .ok program)
    (hresult : compileOutcome settings other records = .ok result)
    (hroutines : ∀ routine ∈ routines, routine.Separated)
    (hothers : ∀ routine ∈ others, routine.Separated) (compact : Option Bool) (store : Store) :
    (∀ text, (program.dumps compact).outcome store = .ok text →
      ((result.dumps compact).outcome store = .ok text ↔
        routines.map Routine.essence = others.map Routine.essence)) ∧
    (settings.processTemplatePath = none ∨
        (∃ payload, store.payloadOf settings.processTemplatePath = .ok payload) →
      ∃ text, (program.dumps compact).outcome store = .ok text) := by
  have hleft := isLowered_of_compile hparse hprogram hroutines
  have hright := isLowered_of_compile hother hresult hothers
  constructor
  · intro text htext
    refine (hleft.draws compact).outcome_iff (hright.draws compact) ?_
      (hleft.text_eq_iff hright compact) htext
    intro hsame
    rw [hsame]
  · intro hgiven
    have hpayload : ∃ payload, store.payloadOf settings.processTemplatePath = .ok payload := by
      rcases hgiven with hnone | hgiven
      · exact ⟨packagedPayload, by rw [hnone]; rfl⟩
      · exact hgiven
    obtain ⟨payload, hpayload⟩ := hpayload
    exact ⟨_, (hleft.draws compact).exists_outcome hpayload⟩

/-- The first letters of names do not change a text, but other letters do. -/
theorem same_text_iff_visit :
    ∃ program result other text,
      compileOutcome {} "event player.join \x7bselect pick::nil() \x7bstart wave()\x7d\x7d" [] =
        .ok program ∧
      compileOutcome {} "event player.Join \x7bselect Pick::nil() \x7bstart wave()\x7d\x7d" [] =
        .ok result ∧
      compileOutcome {} "event player.quit \x7bselect pick::nil() \x7bstart wave()\x7d\x7d" [] =
        .ok other ∧
      (program.dumps none).outcome {} = .ok text ∧ (result.dumps none).outcome {} = .ok text ∧
      (other.dumps none).outcome {} ≠ .ok text := by
  have hname : ∀ name ∈ ["join", "Join", "quit", "pick", "Pick"], Script.IsName name.toList := by
    intro name hmem
    simp only [List.mem_cons, List.not_mem_nil, or_false] at hmem
    rcases hmem with rfl | rfl | rfl | rfl | rfl <;>
      exact .intro (by decide) (List.all_eq_true.mp (by decide)) (by decide)
  have hjoin := hname "join" (by simp)
  have hjoin' := hname "Join" (by simp)
  have hquit := hname "quit" (by simp)
  have hpick := hname "pick" (by simp)
  have hpick' := hname "Pick" (by simp)
  obtain ⟨program, hprogram⟩ := exists_program_visit hjoin hpick {} []
  obtain ⟨result, hresult⟩ := exists_program_visit hjoin' hpick' {} []
  obtain ⟨other, hother⟩ := exists_program_visit hquit hpick {} []
  have hseparated : ∀ event step, step ∈ ["pick", "Pick"] →
      ∀ routine ∈ [visitRoutine event step], routine.Separated := by
    intro event step hstep routine hmem
    obtain rfl := List.mem_singleton.mp hmem
    simp only [List.mem_cons, List.not_mem_nil, or_false] at hstep
    rcases hstep with rfl | rfl <;>
      simp [visitRoutine, Routine.Separated, Script.BodySeparated, Script.Statement.Separated,
        Script.Step.IsReset]
  obtain ⟨htext, hgiven⟩ := same_text_iff (parse_visit hjoin hpick)
    (parse_visit hjoin' hpick') hprogram hresult (hseparated _ _ (by simp))
    (hseparated _ _ (by simp)) none {}
  obtain ⟨text, hfirst⟩ := hgiven (.inl rfl)
  obtain ⟨hdiffers, -⟩ := same_text_iff (parse_visit hjoin hpick) (parse_visit hquit hpick)
    hprogram hother (hseparated _ _ (by simp)) (hseparated _ _ (by simp)) none {}
  refine ⟨program, result, other, text, hprogram, hresult, hother, hfirst,
    (htext text hfirst).mpr ?_, fun h => ?_⟩
  · have hevent : Text.capitalize "join" = Text.capitalize "Join" := by decide
    have hstep : Text.capitalize "pick" = Text.capitalize "Pick" := by decide
    simp [visitRoutine, Routine.essence, Script.essenceOfBody, Script.Statement.essence,
      Script.Step.essence, hevent, hstep]
  · have hnames := congrArg (List.map Essence.Routine.name) ((hdiffers text hfirst).mp h)
    exact absurd hnames (by decide)

end Blockscript
