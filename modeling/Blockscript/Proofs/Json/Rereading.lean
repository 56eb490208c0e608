import Mathlib.Data.List.Nodup
import Blockscript.Proofs.Json.Printing
import Blockscript.Proofs.Script.Numeral

/-!
JSON texts are read back.  A value without floating-point numbers and without repeated
names is what its text is read as, in either style.  The text is plain ASCII, and the
styles differ in blanks only.
-/

namespace Blockscript.Json

/-- A value of words, integers, texts of characters, arrays, and objects whose names
differ. -/
inductive Exact : Json → Prop
  | null : Exact .null
  | bool (b : Bool) : Exact (.bool b)
  | int (n : Int) : Exact (.int n)
  | text (s : String) : Exact (.ofString s)
  | array {items : List Json} (hitems : ∀ item ∈ items, Exact item) : Exact (.array items)
  | object {fields : List (String × Json)} (hnames : (fields.map Prod.fst).Nodup)
      (hvalues : ∀ field ∈ fields, Exact field.2) : Exact (.ofFields fields)

/-- What holds of the values of fields holds with the names in units. -/
theorem forall_mem_units {P : Json → Prop} {fields : List (String × Json)}
    (h : ∀ field ∈ fields, P field.2) :
    ∀ field ∈ fields.map fun field => (Text.units field.1, field.2), P field.2 := by
  intro field hfield
  obtain ⟨found, hfound, rfl⟩ := List.mem_map.mp hfield
  exact h found hfound

/-! ### Blanks -/

/-- The characters that may stand between the parts of a text. -/
def isBlank (c : Char) : Bool :=
  c == ' ' || c == '\t' || c == '\n' || c == '\r'

theorem skipBlanks_append {blanks : List Char} (hblanks : ∀ c ∈ blanks, isBlank c = true)
    (rest : List Char) : skipBlanks (blanks ++ rest) = skipBlanks rest :=
  List.dropWhile_append_of_pos hblanks

theorem skipBlanks_cons {c : Char} (hc : isBlank c = false) (rest : List Char) :
    skipBlanks (c :: rest) = c :: rest :=
  List.dropWhile_cons_of_neg (by rw [← isBlank, hc]; decide)

/-- A style in which a name is set apart from its value by a colon and blanks. -/
def Style.Legible (style : Style) : Prop :=
  ∃ blanks, style.colon = ':' :: blanks ∧ ∀ c ∈ blanks, isBlank c = true

theorem legible_compact : Style.compact.Legible :=
  ⟨[], rfl, List.forall_mem_nil _⟩

theorem legible_pretty : Style.pretty.Legible :=
  ⟨[' '], rfl, List.all_eq_true.mp (by decide)⟩

theorem isBlank_of_mem_lineBreak {style : Style} {level : Nat} {c : Char}
    (hc : c ∈ style.lineBreak level) : isBlank c = true := by
  unfold Style.lineBreak at hc
  cases hindent : style.indent with
  | none => simp [hindent] at hc
  | some width =>
      rw [hindent] at hc
      rcases List.mem_cons.mp hc with rfl | hc
      · decide
      · rw [List.eq_of_mem_replicate hc]
        decide

theorem skipBlanks_lineBreak (style : Style) (level : Nat) (rest : List Char) :
    skipBlanks (style.lineBreak level ++ rest) = skipBlanks rest :=
  skipBlanks_append (fun _ hc => isBlank_of_mem_lineBreak hc) rest

theorem opener_mem (json : Json) : json.opener ∈ ['"', '[', '{', '0'] := by
  cases json <;> simp [opener]

/-- No value begins with a blank. -/
theorem isBlank_of_openerOf {c : Char} {json : Json} (hc : openerOf c = json.opener) :
    isBlank c = false := by
  cases hblank : isBlank c with
  | false => rfl
  | true =>
      have hmem := opener_mem json
      simp only [isBlank, Bool.or_eq_true, beq_iff_eq] at hblank
      rw [← hc] at hmem
      rcases hblank with ((rfl | rfl) | rfl) | rfl <;> exact absurd hmem (by decide)

theorem skipBlanks_writeAt (style : Style) (level : Nat) (json : Json) (rest : List Char) :
    skipBlanks (writeAt style level json ++ rest) = writeAt style level json ++ rest := by
  obtain ⟨c, tail, hwrite, hc⟩ := exists_writeAt_eq_cons style level json
  rw [hwrite, List.cons_append]
  exact skipBlanks_cons (isBlank_of_openerOf hc) _

/-! ### Integers are read back -/

/-- The digits of a positive number do not begin with zero. -/
theorem exists_toDigits_eq_cons {n : Nat} (hn : 0 < n) :
    ∃ c digits, Nat.toDigits 10 n = c :: digits ∧ c ≠ '0' := by
  induction n using Nat.strongRecOn with
  | ind n ih =>
      by_cases hsmall : n < 10
      · have hall : ∀ d < 10, 0 < d → Nat.digitChar d ≠ '0' := by decide
        exact ⟨Nat.digitChar n, [], Nat.toDigits_of_lt_base hsmall, hall n hsmall hn⟩
      · obtain ⟨c, digits, hdigits, hc⟩ := ih (n / 10) (by omega) (by omega)
        rw [Nat.toDigits_of_base_le (by decide) (Nat.le_of_not_lt hsmall), hdigits]
        exact ⟨c, _, rfl, hc⟩

theorem EndsAtom.stops_digits {rest : List Char} (h : EndsAtom rest) :
    Script.Stops Char.isDigit rest :=
  Script.Stops.mono (fun _ => isAtomChar_of_isDigit) h

theorem splitWhole_toDigits (n : Nat) {rest : List Char} (hrest : EndsAtom rest) :
    splitWhole (Nat.toDigits 10 n ++ rest) = some (Nat.toDigits 10 n, rest) := by
  by_cases hn : n = 0
  · subst hn
    rfl
  · obtain ⟨c, digits, hdigits, hc⟩ := exists_toDigits_eq_cons (Nat.pos_of_ne_zero hn)
    have hall : ∀ d ∈ Nat.toDigits 10 n, d.isDigit = true :=
      fun _ hd => Nat.isDigit_of_mem_toDigits (by decide) (by decide) hd
    have htake := Script.takeWhile_append_of_stops hall hrest.stops_digits
    have hdrop := Script.dropWhile_append_of_stops hall hrest.stops_digits
    rw [splitWhole.eq_2 _ (by simp [hdigits, hc]), htake, hdrop]
    simp [hdigits]

theorem splitFraction_of_endsAtom {rest : List Char} (hrest : EndsAtom rest) :
    splitFraction rest = ([], rest) := by
  apply splitFraction.eq_2
  rintro more rfl
  exact absurd (hrest '.' rfl) (by decide)

theorem splitExponent_of_endsAtom {rest : List Char} (hrest : EndsAtom rest) :
    splitExponent rest = ([], rest) := by
  cases rest with
  | nil => rfl
  | cons c rest =>
      have hletter : ¬ (c = 'e' ∨ c = 'E') := by
        rintro (rfl | rfl)
        · exact absurd (hrest 'e' rfl) (by decide)
        · exact absurd (hrest 'E' rfl) (by decide)
      unfold splitExponent
      exact if_neg hletter

theorem readNumber?_writeInt (n : Int) {rest : List Char} (hrest : EndsAtom rest) :
    readNumber? (writeInt n ++ rest) = some (.int n, rest) := by
  have hwhole := splitWhole_toDigits n.natAbs hrest
  have hfraction := splitFraction_of_endsAtom hrest
  have hexponent := splitExponent_of_endsAtom hrest
  unfold writeInt
  by_cases hn : n < 0
  · have hsize : -(n.natAbs : Int) = n := by omega
    rw [if_pos hn, List.cons_append]
    unfold readNumber?
    simp only [hwhole, hfraction, hexponent, Option.bind_eq_bind, Option.bind_some,
      List.isEmpty_nil, and_self, ↓reduceIte, Nat.ofDigitChars_ten_toDigits, hsize, Option.pure_def]
  · have hsize : (n.natAbs : Int) = n := by omega
    have hsign : ∀ more, Nat.toDigits 10 n.natAbs ++ rest ≠ '-' :: more := by
      intro more heq
      obtain ⟨c, digits, hdigits⟩ :=
        List.exists_cons_of_ne_nil (Nat.toDigits_ne_nil (n := n.natAbs) (b := 10))
      rw [hdigits, List.cons_append] at heq
      have hmem : c ∈ Nat.toDigits 10 n.natAbs := hdigits ▸ List.mem_cons_self
      have hdigit := Nat.isDigit_of_mem_toDigits (by decide) (by decide) hmem
      rw [(List.cons.inj heq).1] at hdigit
      exact absurd hdigit (by decide)
    rw [if_neg hn]
    unfold readNumber?
    split
    rename_i heq
    split at heq
    · exact absurd ‹_› (hsign _)
    · cases heq
      simp only [hwhole, hfraction, hexponent, Option.bind_eq_bind, Option.bind_some,
        List.isEmpty_nil, and_self, ↓reduceIte, Nat.ofDigitChars_ten_toDigits, hsize,
        Option.pure_def, Bool.false_eq_true]

/-! ### Values are read back -/

/-- A character of a number or a word opens no text, array or object. -/
theorem readValue?_atom {c : Char} (hc : isAtomChar c = true) (rounds : Nat) (rest : List Char) :
    readValue? (rounds + 1) (c :: rest) = (readWord? (c :: rest)).or (readNumber? (c :: rest)) := by
  have hopens : ∀ d ∈ ['"', '[', '{'], c ≠ d := by
    rintro d hd rfl
    simp only [List.mem_cons, List.not_mem_nil, or_false] at hd
    rcases hd with rfl | rfl | rfl <;> exact absurd hc (by decide)
  rw [readValue?]
  · rintro more heq
    exact hopens '"' (by decide) (List.cons.inj heq).1
  · rintro more heq
    exact hopens '[' (by decide) (List.cons.inj heq).1
  · rintro more heq
    exact hopens '{' (by decide) (List.cons.inj heq).1

/-- No word begins with a digit, or with a sign and a digit. -/
theorem readWord?_of_isDigit {c : Char} (hc : c.isDigit = true) (rest : List Char) :
    readWord? (c :: rest) = none ∧ readWord? ('-' :: c :: rest) = none := by
  have hother : ∀ d ∈ ['n', 't', 'f', 'N', 'I', '-'], d ≠ c := by
    rintro d hd rfl
    simp only [List.mem_cons, List.not_mem_nil, or_false] at hd
    rcases hd with rfl | rfl | rfl | rfl | rfl | rfl <;> exact absurd hc (by decide)
  simp only [List.forall_mem_cons, List.not_mem_nil, false_imp_iff, implies_true, and_true]
    at hother
  simp [readWord?, expect, hother]

theorem readWord?_writeInt (n : Int) (rest : List Char) :
    readWord? (writeInt n ++ rest) = none := by
  obtain ⟨c, digits, hdigits⟩ :=
    List.exists_cons_of_ne_nil (Nat.toDigits_ne_nil (n := n.natAbs) (b := 10))
  have hmem : c ∈ Nat.toDigits 10 n.natAbs := hdigits ▸ List.mem_cons_self
  have hdigit := Nat.isDigit_of_mem_toDigits (by decide) (by decide) hmem
  simp only [writeInt, hdigits]
  split
  · exact (readWord?_of_isDigit hdigit _).2
  · exact (readWord?_of_isDigit hdigit _).1

/-- A value that is read where it has been written, in any legible style. -/
def ReadsBack (json : Json) : Prop :=
  ∀ {style : Style} {level rounds : Nat} {rest : List Char}, style.Legible → EndsAtom rest →
    2 * (writeAt style level json).length ≤ rounds + 1 →
    readValue? rounds (writeAt style level json ++ rest) = some (json, rest)

/-- There are rounds left where something has been written. -/
theorem exists_rounds {style : Style} {level rounds : Nat} {json : Json}
    (hrounds : 2 * (writeAt style level json).length ≤ rounds + 1) :
    ∃ fewer, rounds = fewer + 1 := by
  obtain ⟨c, tail, hwrite, -⟩ := exists_writeAt_eq_cons style level json
  rw [hwrite, List.length_cons] at hrounds
  exact ⟨rounds - 1, by omega⟩

/-- Numbers and words are read back if one of the two readers does so. -/
theorem readsBack_atom {json : Json} (hjson : json.opener = '0')
    (hread : ∀ (style : Style) (level : Nat) {rest : List Char}, EndsAtom rest →
      (readWord? (writeAt style level json ++ rest)).or
        (readNumber? (writeAt style level json ++ rest)) = some (json, rest)) :
    ReadsBack json := by
  intro style level rounds rest _ hrest hrounds
  obtain ⟨fewer, rfl⟩ := exists_rounds hrounds
  obtain ⟨hne, hchars⟩ := atomic_writeAt hjson style level
  obtain ⟨c, tail, hwrite⟩ := List.exists_cons_of_ne_nil hne
  have hc : isAtomChar c = true := hchars c (by rw [hwrite]; exact List.mem_cons_self)
  have hfound := hread style level hrest
  rw [hwrite, List.cons_append] at hfound ⊢
  rw [readValue?_atom hc, hfound]

theorem readsBack_null : ReadsBack .null := by
  apply readsBack_atom rfl
  intro style level rest _
  rw [writeAt]
  rfl

theorem readsBack_bool (b : Bool) : ReadsBack (.bool b) := by
  apply readsBack_atom rfl
  intro style level rest _
  cases b <;> rw [writeAt] <;> rfl

theorem readsBack_int (n : Int) : ReadsBack (.int n) := by
  apply readsBack_atom rfl
  intro style level rest hrest
  rw [writeAt, readWord?_writeInt, Option.none_or]
  exact readNumber?_writeInt n hrest

theorem readsBack_text (units : List UInt16) : ReadsBack (.text units) := by
  intro style level rounds rest _ _ hrounds
  obtain ⟨fewer, rfl⟩ := exists_rounds hrounds
  simp only [writeAt, writeText, List.cons_append, List.append_assoc, List.nil_append, readValue?,
    readText?_write, Option.map_some]

/-- The items of an array are read back up to its closing bracket. -/
theorem readItems?_write {style : Style} (hstyle : style.Legible) {level outer : Nat}
    {rest : List Char} {item : Json} {items : List Json} {rounds : Nat}
    (hall : ∀ json ∈ item :: items, ReadsBack json)
    (hrounds : 2 * (writeAt style level item ++ writeItems style level items).length ≤ rounds) :
    readItems? rounds (writeAt style level item ++
      (writeItems style level items ++ (style.lineBreak outer ++ ']' :: rest))) =
      some (item :: items, rest) := by
  induction items generalizing item rounds with
  | nil =>
      obtain ⟨hitem, -⟩ := List.forall_mem_cons.mp hall
      have hclosing := closing_lineBreak style outer (c := ']') (by decide) rest
      rw [writeItems, List.append_nil] at hrounds
      obtain ⟨fewer, rfl⟩ := exists_rounds (Nat.le_succ_of_le hrounds)
      rw [writeItems, List.nil_append, readItems?, hitem hstyle hclosing.endsAtom hrounds]
      simp only [Option.bind_eq_bind, Option.bind_some, skipBlanks_lineBreak,
        skipBlanks_cons (show isBlank ']' = false by decide), Option.pure_def]
  | cons next items ih =>
      obtain ⟨hitem, hmore⟩ := List.forall_mem_cons.mp hall
      have hclosing := closing_lineBreak style outer (c := ']') (by decide) rest
      have hends := endsAtom_writeItems style level (next :: items) hclosing
      have hlength : (writeAt style level item).length + ((writeAt style level next ++
          writeItems style level items).length + 1) ≤
          (writeAt style level item ++ writeItems style level (next :: items)).length := by
        simp only [writeItems, List.length_append, List.length_cons]
        omega
      obtain ⟨fewer, rfl⟩ : ∃ fewer, rounds = fewer + 1 := ⟨rounds - 1, by omega⟩
      have hfewer : 2 * (writeAt style level next ++ writeItems style level items).length ≤
          fewer := by omega
      rw [readItems?, hitem hstyle hends (by omega)]
      simp only [Option.bind_eq_bind, Option.bind_some, writeItems, List.cons_append,
        List.append_assoc, skipBlanks_cons (show isBlank ',' = false by decide),
        skipBlanks_lineBreak, skipBlanks_writeAt, ih hmore hfewer, Option.pure_def]

theorem expect_singleton (c : Char) (rest : List Char) : expect [c] (c :: rest) = some rest := by
  simp [expect]

/-- A colon and blanks stand between a name and its value. -/
theorem exists_expect_colon {style : Style} (hstyle : style.Legible) (rest : List Char) :
    ∃ after, expect [':'] (skipBlanks (style.colon ++ rest)) = some after ∧
      skipBlanks after = skipBlanks rest := by
  obtain ⟨blanks, hcolon, hblanks⟩ := hstyle
  refine ⟨blanks ++ rest, ?_, skipBlanks_append hblanks rest⟩
  rw [hcolon, List.cons_append, skipBlanks_cons (by decide), expect_singleton]

/-- The fields of an object are read back up to its closing brace. -/
theorem readFields?_write {style : Style} (hstyle : style.Legible) {level outer : Nat}
    {rest : List Char} {name : List UInt16} {value : Json} {fields : List (List UInt16 × Json)}
    {rounds : Nat} (hall : ∀ field ∈ (name, value) :: fields, ReadsBack field.2)
    (hrounds : 2 * (writeText name ++ (style.colon ++ (writeAt style level value ++
      writeFields style level fields))).length ≤ rounds) :
    readFields? rounds (writeText name ++ (style.colon ++ (writeAt style level value ++
      (writeFields style level fields ++ (style.lineBreak outer ++ '}' :: rest))))) =
      some ((name, value) :: fields, rest) := by
  have hvalue : ReadsBack value := hall (name, value) List.mem_cons_self
  have hclosing := closing_lineBreak style outer (c := '}') (by decide) rest
  induction fields generalizing name value rounds with
  | nil =>
      have hlength : (writeAt style level value).length + 2 ≤ (writeText name ++ (style.colon ++
          (writeAt style level value ++ writeFields style level []))).length := by
        simp only [writeText, List.length_append, List.length_cons]
        omega
      obtain ⟨fewer, rfl⟩ : ∃ fewer, rounds = fewer + 1 := ⟨rounds - 1, by omega⟩
      have hfewer : 2 * (writeAt style level value).length ≤ fewer + 1 := by omega
      have hread := hvalue hstyle hclosing.endsAtom hfewer
      obtain ⟨after, hafter, hskip⟩ := exists_expect_colon hstyle
        (writeAt style level value ++ (style.lineBreak outer ++ '}' :: rest))
      simp only [readFields?, writeText, writeFields, List.cons_append, List.append_assoc,
        List.nil_append, expect_singleton, Option.bind_eq_bind, Option.bind_some,
        readText?_write, hafter, hskip, skipBlanks_writeAt, hread, skipBlanks_lineBreak,
        skipBlanks_cons (show isBlank '}' = false by decide), Option.pure_def]
  | cons next fields ih =>
      obtain ⟨other, more⟩ := next
      obtain ⟨-, hmore⟩ := List.forall_mem_cons.mp hall
      have hends := endsAtom_writeFields style level ((other, more) :: fields) hclosing
      have hlength : (writeAt style level value).length + ((writeText other ++ (style.colon ++
          (writeAt style level more ++ writeFields style level fields))).length + 1) ≤
          (writeText name ++ (style.colon ++ (writeAt style level value ++
            writeFields style level ((other, more) :: fields)))).length := by
        simp only [writeFields, List.length_append, List.length_cons]
        omega
      obtain ⟨fewer, rfl⟩ : ∃ fewer, rounds = fewer + 1 := ⟨rounds - 1, by omega⟩
      have hfewer : 2 * (writeAt style level value).length ≤ fewer + 1 := by omega
      have hread := hvalue hstyle hends hfewer
      have hnext := ih hmore (show _ ≤ fewer by omega) (hmore _ List.mem_cons_self)
      obtain ⟨after, hafter, hskip⟩ := exists_expect_colon hstyle (writeAt style level value ++
        (writeFields style level ((other, more) :: fields) ++
          (style.lineBreak outer ++ '}' :: rest)))
      rw [writeFields] at hafter hskip hread ⊢
      simp only [writeText, List.cons_append, List.append_assoc, List.nil_append]
        at hafter hskip hread hnext
      simp only [readFields?, writeText, List.cons_append, List.append_assoc,
        List.nil_append, expect_singleton, Option.bind_eq_bind, Option.bind_some,
        readText?_write, hafter, hskip, skipBlanks_writeAt, hread, skipBlanks_lineBreak,
        skipBlanks_cons (show isBlank ',' = false by decide),
        skipBlanks_cons (show isBlank '"' = false by decide), hnext, Option.pure_def]

/-- No value begins as an array ends. -/
theorem writeAt_append_ne_cons (style : Style) (level : Nat) (json : Json)
    (rest more : List Char) : writeAt style level json ++ rest ≠ ']' :: more := by
  obtain ⟨c, tail, hwrite, hc⟩ := exists_writeAt_eq_cons style level json
  intro heq
  rw [hwrite, List.cons_append] at heq
  have hmem := opener_mem json
  rw [← hc, (List.cons.inj heq).1] at hmem
  exact absurd hmem (by decide)

theorem readsBack_array {items : List Json} (hitems : ∀ item ∈ items, ReadsBack item) :
    ReadsBack (.array items) := by
  intro style level rounds rest hstyle _ hrounds
  obtain ⟨fewer, rfl⟩ := exists_rounds hrounds
  cases items with
  | nil => rfl
  | cons item items =>
      have hfewer : 2 * (writeAt style (level + 1) item ++
          writeItems style (level + 1) items).length ≤ fewer := by
        simp only [writeAt, List.length_append, List.length_cons] at hrounds ⊢
        omega
      have hread : readItems? fewer (writeAt style (level + 1) item ++
          (writeItems style (level + 1) items ++ (style.lineBreak level ++ ']' :: rest))) =
          some (item :: items, rest) := readItems?_write hstyle hitems hfewer
      have hopen := writeAt_append_ne_cons style (level + 1) item
        (writeItems style (level + 1) items ++ (style.lineBreak level ++ ']' :: rest))
      simp only [writeAt, List.cons_append, List.append_assoc, List.nil_append, readValue?,
        skipBlanks_lineBreak, skipBlanks_writeAt, hread, Option.map_some]

/-- Setting a field with a new name puts it at the end. -/
theorem setField_of_not_mem {name : List UInt16} {fields : List (List UInt16 × Json)}
    (hname : name ∉ fields.map Prod.fst) (value : Json) :
    setField name value fields = fields ++ [(name, value)] := by
  induction fields with
  | nil => rfl
  | cons field fields ih =>
      rw [List.map_cons, List.mem_cons, not_or] at hname
      rw [setField, if_neg (Ne.symm hname.1), ih hname.2, List.cons_append]

/-- Fields with different names stay as they are written. -/
theorem mergeFields_of_nodup {fields : List (List UInt16 × Json)}
    (hnames : (fields.map Prod.fst).Nodup) : mergeFields fields = fields := by
  have hfold : ∀ before, ((before ++ fields).map Prod.fst).Nodup →
      fields.foldl (fun fields field => setField field.1 field.2 fields) before =
        before ++ fields := by
    clear hnames
    induction fields with
    | nil => simp
    | cons field fields ih =>
        intro before hnames
        have hnew : field.1 ∉ before.map Prod.fst := by
          rw [List.map_append, List.map_cons] at hnames
          exact fun hmem => (List.nodup_append.mp hnames).2.2 _ hmem _ List.mem_cons_self rfl
        rw [List.foldl_cons, setField_of_not_mem hnew, ih, List.append_assoc]
        · rfl
        · rwa [List.append_assoc]
  exact hfold [] hnames

theorem readsBack_object {fields : List (List UInt16 × Json)}
    (hnames : (fields.map Prod.fst).Nodup) (hfields : ∀ field ∈ fields, ReadsBack field.2) :
    ReadsBack (.object fields) := by
  intro style level rounds rest hstyle _ hrounds
  obtain ⟨fewer, rfl⟩ := exists_rounds hrounds
  cases fields with
  | nil => rfl
  | cons field fields =>
      obtain ⟨name, value⟩ := field
      have hfewer : 2 * (writeText name ++ (style.colon ++ (writeAt style (level + 1) value ++
          writeFields style (level + 1) fields))).length ≤ fewer := by
        simp only [writeAt, List.length_append, List.length_cons] at hrounds ⊢
        omega
      have hread : readFields? fewer (writeText name ++ (style.colon ++
          (writeAt style (level + 1) value ++ (writeFields style (level + 1) fields ++
            (style.lineBreak level ++ '}' :: rest))))) = some ((name, value) :: fields, rest) :=
        readFields?_write hstyle hfields hfewer
      simp only [writeText, List.cons_append, List.append_assoc, List.nil_append] at hread
      simp only [writeAt, writeText, List.cons_append, List.append_assoc, List.nil_append,
        readValue?, skipBlanks_lineBreak, skipBlanks_cons (show isBlank '"' = false by decide)]
      change Option.map _ (readFields? fewer _) = _
      rw [hread, Option.map_some, mergeFields_of_nodup hnames]

/-- An exact value is read back. -/
theorem Exact.readsBack {json : Json} (h : json.Exact) : ReadsBack json := by
  induction h with
  | null => exact readsBack_null
  | bool b => exact readsBack_bool b
  | int n => exact readsBack_int n
  | text s => exact readsBack_text _
  | array _ ih => exact readsBack_array ih
  | @object fields hnames _ ih =>
      apply readsBack_object
      · have hunits : (fields.map fun field => (Text.units field.1, field.2)).map Prod.fst =
            (fields.map Prod.fst).map Text.units := by simp
        rw [hunits]
        exact List.Nodup.map (fun _ _ => Text.units_inj.mp) hnames
      · exact forall_mem_units ih

theorem Exact.read?_write {json : Json} (h : json.Exact) {style : Style} (hstyle : style.Legible) :
    read? (json.write style) = some json := by
  have hskip := skipBlanks_writeAt style 0 json []
  have hread : readValue? (2 * (writeAt style 0 json).length + 2)
      (writeAt style 0 json ++ []) = some (json, []) :=
    h.readsBack hstyle nofun (by omega)
  rw [List.append_nil] at hskip hread
  simp only [read?, write, String.toList_ofList, hskip, hread]
  rfl

/-! ### Texts are plain ASCII -/

/-- The printable characters of ASCII, and the space. -/
def IsPrintable (c : Char) : Prop :=
  0x20 ≤ c.toNat ∧ c.toNat ≤ 0x7E

instance : DecidablePred IsPrintable :=
  fun _ => inferInstanceAs (Decidable (_ ∧ _))

theorem isPrintable_of_isDigit {c : Char} (hc : c.isDigit = true) : IsPrintable c := by
  simp only [Char.isDigit, ge_iff_le, Bool.and_eq_true, decide_eq_true_eq] at hc
  exact ⟨Nat.le_trans (by decide) hc.1, Nat.le_trans hc.2 (by decide)⟩

/-- A unit is written as a backslash and a character, as itself, or as a backslash and
its number. -/
theorem writeUnit_cases (u : UInt16) :
    (∃ c ∈ ['"', '\\', 'n', 'r', 't', 'f', 'b'], writeUnit u = ['\\', c]) ∨
    (∃ n, 0x20 ≤ n ∧ n < 0x7F ∧ n ≠ 0x22 ∧ n ≠ 0x5C ∧ writeUnit u = [Char.ofNat n]) ∨
    ∃ a b c d, a < 16 ∧ b < 16 ∧ c < 16 ∧ d < 16 ∧ writeUnit u =
      ['\\', 'u', Nat.digitChar a, Nat.digitChar b, Nat.digitChar c, Nat.digitChar d] := by
  have hbound : u.toNat < 0x10000 := u.toNat_lt
  generalize htext : writeUnit u = text
  unfold writeUnit at htext
  dsimp only at htext
  split_ifs at htext with h1 h2 h3 h4 h5 h6 h7 h8
  · exact .inl ⟨_, by decide, htext.symm⟩
  · exact .inl ⟨_, by decide, htext.symm⟩
  · exact .inl ⟨_, by decide, htext.symm⟩
  · exact .inl ⟨_, by decide, htext.symm⟩
  · exact .inl ⟨_, by decide, htext.symm⟩
  · exact .inl ⟨_, by decide, htext.symm⟩
  · exact .inl ⟨_, by decide, htext.symm⟩
  · exact .inr (.inl ⟨_, h8.1, h8.2, h1, h2, htext.symm⟩)
  · rw [hex_four hbound] at htext
    exact .inr (.inr ⟨_, _, _, _, by omega, by omega, by omega, by omega, htext.symm⟩)

theorem isPrintable_writeUnit (u : UInt16) : ∀ c ∈ writeUnit u, IsPrintable c := by
  have hshort : ∀ c ∈ ['"', '\\', 'n', 'r', 't', 'f', 'b'], IsPrintable c :=
    List.all_iff_forall_prop.mp (by decide)
  have hplain : ∀ n < 0x7F, 0x20 ≤ n → IsPrintable (Char.ofNat n) := by decide +kernel
  have hdigit : ∀ d < 16, IsPrintable (Nat.digitChar d) := by decide
  rcases writeUnit_cases u with ⟨c, hc, heq⟩ | ⟨n, hlow, hhigh, -, -, heq⟩ |
    ⟨a, b, c, d, ha, hb, hc, hd, heq⟩
  · rw [heq]
    simp only [List.forall_mem_cons]
    exact ⟨by decide, hshort c hc, List.forall_mem_nil _⟩
  · rw [heq]
    exact List.forall_mem_singleton.mpr (hplain n hhigh hlow)
  · rw [heq]
    simp only [List.forall_mem_cons]
    exact ⟨by decide, by decide, hdigit a ha, hdigit b hb, hdigit c hc, hdigit d hd,
      List.forall_mem_nil _⟩

theorem isPrintable_writeText (units : List UInt16) : ∀ c ∈ writeText units, IsPrintable c := by
  have hunits : ∀ c ∈ units.flatMap writeUnit, IsPrintable c := by
    intro c hc
    obtain ⟨u, -, hu⟩ := List.mem_flatMap.mp hc
    exact isPrintable_writeUnit u c hu
  exact List.forall_mem_cons.mpr ⟨by decide, List.forall_mem_append.mpr
    ⟨hunits, List.forall_mem_singleton.mpr (by decide)⟩⟩

theorem isPrintable_writeInt (n : Int) : ∀ c ∈ writeInt n, IsPrintable c := by
  have hdigits : ∀ c ∈ Nat.toDigits 10 n.natAbs, IsPrintable c :=
    fun _ hc => isPrintable_of_isDigit (Nat.isDigit_of_mem_toDigits (by decide) (by decide) hc)
  unfold writeInt
  dsimp only
  split
  · exact List.forall_mem_cons.mpr ⟨by decide, hdigits⟩
  · exact hdigits

section Chars

variable {P : Char → Prop} {style : Style}

theorem forall_mem_writeItems (hcomma : P ',') (hbreak : ∀ level, ∀ c ∈ style.lineBreak level, P c)
    {items : List Json} (hitems : ∀ item ∈ items, ∀ level, ∀ c ∈ writeAt style level item, P c)
    (level : Nat) : ∀ c ∈ writeItems style level items, P c := by
  induction items with
  | nil =>
      rw [writeItems]
      exact List.forall_mem_nil _
  | cons item items ih =>
      obtain ⟨hitem, hitems⟩ := List.forall_mem_cons.mp hitems
      rw [writeItems]
      simp only [List.cons_append, List.forall_mem_cons, List.forall_mem_append]
      exact ⟨hcomma, ⟨hbreak level, hitem level⟩, ih hitems⟩

theorem forall_mem_writeFields (hcomma : P ',')
    (hbreak : ∀ level, ∀ c ∈ style.lineBreak level, P c) (hcolon : ∀ c ∈ style.colon, P c)
    (htext : ∀ units, ∀ c ∈ writeText units, P c) {fields : List (List UInt16 × Json)}
    (hfields : ∀ field ∈ fields, ∀ level, ∀ c ∈ writeAt style level field.2, P c)
    (level : Nat) : ∀ c ∈ writeFields style level fields, P c := by
  induction fields with
  | nil =>
      rw [writeFields]
      exact List.forall_mem_nil _
  | cons field fields ih =>
      obtain ⟨name, value⟩ := field
      obtain ⟨hvalue, hfields⟩ := List.forall_mem_cons.mp hfields
      rw [writeFields]
      simp only [List.cons_append, List.forall_mem_cons, List.forall_mem_append]
      exact ⟨hcomma, ⟨⟨⟨hbreak level, htext name⟩, hcolon⟩, hvalue level⟩, ih hfields⟩

/-- The characters of a text are printable, but for what its style puts between parts. -/
theorem Exact.forall_mem_writeAt (hprintable : ∀ c, IsPrintable c → P c)
    (hbreak : ∀ level, ∀ c ∈ style.lineBreak level, P c) (hcolon : ∀ c ∈ style.colon, P c)
    {json : Json} (h : json.Exact) : ∀ level, ∀ c ∈ writeAt style level json, P c := by
  have hword : ∀ {word : List Char}, (∀ c ∈ word, IsPrintable c) → ∀ c ∈ word, P c :=
    fun hall c hc => hprintable c (hall c hc)
  have hcomma := hprintable ',' (by decide)
  have htext : ∀ units, ∀ c ∈ writeText units, P c :=
    fun units => hword (isPrintable_writeText units)
  induction h with
  | null =>
      intro level
      rw [writeAt]
      exact hword (List.all_iff_forall_prop.mp (by decide))
  | bool b =>
      intro level
      cases b <;> rw [writeAt] <;> exact hword (List.all_iff_forall_prop.mp (by decide))
  | int n =>
      intro level
      rw [writeAt]
      exact hword (isPrintable_writeInt n)
  | text s =>
      intro level
      rw [ofString, writeAt]
      exact htext _
  | @array items _ ih =>
      intro level
      cases items with
      | nil =>
          rw [writeAt]
          exact hword (List.all_iff_forall_prop.mp (by decide))
      | cons item items =>
          obtain ⟨hitem, hitems⟩ := List.forall_mem_cons.mp ih
          rw [writeAt]
          simp only [List.cons_append, List.forall_mem_cons, List.forall_mem_append]
          exact ⟨hprintable _ (by decide), ⟨⟨⟨hbreak _, hitem _⟩,
            forall_mem_writeItems hcomma hbreak hitems _⟩, hbreak _⟩, hprintable _ (by decide),
            List.forall_mem_nil _⟩
  | @object fields _ _ ih =>
      intro level
      cases fields with
      | nil =>
          rw [ofFields, List.map_nil, writeAt]
          exact hword (List.all_iff_forall_prop.mp (by decide))
      | cons field fields =>
          obtain ⟨hvalue, hfields⟩ := List.forall_mem_cons.mp ih
          have hunits := forall_mem_units
            (P := fun value => ∀ level, ∀ c ∈ writeAt style level value, P c) hfields
          have hmore := forall_mem_writeFields hcomma hbreak hcolon htext hunits (level + 1)
          rw [ofFields, List.map_cons, writeAt]
          simp only [List.cons_append, List.forall_mem_cons, List.forall_mem_append]
          exact ⟨hprintable _ (by decide), ⟨⟨⟨⟨⟨hbreak _, htext _⟩, hcolon⟩, hvalue _⟩, hmore⟩,
            hbreak _⟩, hprintable _ (by decide), List.forall_mem_nil _⟩

end Chars

/-! ### Styles differ in blanks only -/

/-- A text without the blanks outside of quotes.  The flag tells whether the text begins
inside of quotes, where a backslash and the next character stand together. -/
def unspaced : Bool → List Char → List Char
  | _, [] => []
  | true, '\\' :: c :: rest => '\\' :: c :: unspaced true rest
  | true, c :: rest => c :: unspaced (c != '"') rest
  | false, c :: rest =>
      if isBlank c then unspaced false rest else c :: unspaced (c == '"') rest

theorem unspaced_blanks {blanks : List Char} (hblanks : ∀ c ∈ blanks, isBlank c = true)
    (rest : List Char) : unspaced false (blanks ++ rest) = unspaced false rest := by
  induction blanks with
  | nil => rfl
  | cons c blanks ih =>
      obtain ⟨hc, hblanks⟩ := List.forall_mem_cons.mp hblanks
      rw [List.cons_append, unspaced, if_pos hc, ih hblanks]

theorem unspaced_lineBreak (style : Style) (level : Nat) (rest : List Char) :
    unspaced false (style.lineBreak level ++ rest) = unspaced false rest :=
  unspaced_blanks (fun _ hc => isBlank_of_mem_lineBreak hc) rest

theorem unspaced_cons {c : Char} (hblank : isBlank c = false) (hquote : c ≠ '"')
    (rest : List Char) : unspaced false (c :: rest) = c :: unspaced false rest := by
  rw [unspaced, if_neg (by simp [hblank]), beq_false_of_ne hquote]

/-- Numbers and words have neither blanks nor quotes. -/
theorem Atomic.unspaced_append {text : List Char} (htext : Atomic text) (rest : List Char) :
    unspaced false (text ++ rest) = text ++ unspaced false rest := by
  have hchars := htext.chars
  clear htext
  induction text with
  | nil => rfl
  | cons c text ih =>
      obtain ⟨hc, hchars⟩ := List.forall_mem_cons.mp hchars
      have hother : ∀ d ∈ [' ', '\t', '\n', '\r', '"'], c ≠ d := by
        rintro d hd rfl
        simp only [List.mem_cons, List.not_mem_nil, or_false] at hd
        rcases hd with rfl | rfl | rfl | rfl | rfl <;> exact absurd hc (by decide)
      simp only [List.forall_mem_cons] at hother
      rw [List.cons_append, unspaced_cons _ hother.2.2.2.2.1, ih hchars, List.cons_append]
      simp [isBlank, hother]

theorem unspaced_quoted {text : List Char} (htext : ∀ c ∈ text, c ≠ '"' ∧ c ≠ '\\')
    (rest : List Char) : unspaced true (text ++ rest) = text ++ unspaced true rest := by
  induction text with
  | nil => rfl
  | cons c text ih =>
      obtain ⟨⟨hquote, hslash⟩, htext⟩ := List.forall_mem_cons.mp htext
      rw [List.cons_append, unspaced.eq_3 _ _ (fun _ _ h _ => hslash h), bne_iff_ne.mpr hquote,
        ih htext, List.cons_append]

/-- A unit is written without a quote that could end its text. -/
theorem unspaced_writeUnit (u : UInt16) (rest : List Char) :
    unspaced true (writeUnit u ++ rest) = writeUnit u ++ unspaced true rest := by
  have hplain : ∀ n < 0x7F, n ≠ 0x22 → n ≠ 0x5C →
      Char.ofNat n ≠ '"' ∧ Char.ofNat n ≠ '\\' := by decide +kernel
  have hdigit : ∀ d < 16, Nat.digitChar d ≠ '"' ∧ Nat.digitChar d ≠ '\\' := by decide
  rcases writeUnit_cases u with ⟨c, -, heq⟩ | ⟨n, -, hhigh, hquote, hslash, heq⟩ |
    ⟨a, b, c, d, ha, hb, hc, hd, heq⟩
  · rw [heq]
    rfl
  · rw [heq]
    exact unspaced_quoted (List.forall_mem_singleton.mpr (hplain n hhigh hquote hslash)) rest
  · have hdigits : ∀ e ∈ [Nat.digitChar a, Nat.digitChar b, Nat.digitChar c, Nat.digitChar d],
        e ≠ '"' ∧ e ≠ '\\' := by
      simp only [List.forall_mem_cons]
      exact ⟨hdigit a ha, hdigit b hb, hdigit c hc, hdigit d hd, List.forall_mem_nil _⟩
    rw [heq]
    exact congrArg ('\\' :: 'u' :: ·) (unspaced_quoted hdigits rest)

theorem unspaced_writeText (units : List UInt16) (rest : List Char) :
    unspaced false (writeText units ++ rest) = writeText units ++ unspaced false rest := by
  have hunits : unspaced true (units.flatMap writeUnit ++ '"' :: rest) =
      units.flatMap writeUnit ++ '"' :: unspaced false rest := by
    induction units with
    | nil => rfl
    | cons u units ih =>
        rw [List.flatMap_cons, List.append_assoc, unspaced_writeUnit, ih, List.append_assoc]
  simp only [writeText, List.cons_append, List.append_assoc, List.nil_append, ← hunits]
  rfl

/-- A value whose text, in any legible style, is its compact text without blanks. -/
def Unspaces (json : Json) : Prop :=
  ∀ {style : Style} (level other : Nat) (rest : List Char), style.Legible →
    unspaced false (writeAt style level json ++ rest) =
      writeAt .compact other json ++ unspaced false rest

theorem unspaced_writeItems {style : Style} (hstyle : style.Legible) {items : List Json}
    (hitems : ∀ item ∈ items, Unspaces item) (level other : Nat) (rest : List Char) :
    unspaced false (writeItems style level items ++ rest) =
      writeItems .compact other items ++ unspaced false rest := by
  induction items with
  | nil =>
      rw [writeItems, writeItems]
      rfl
  | cons item items ih =>
      obtain ⟨hitem, hitems⟩ := List.forall_mem_cons.mp hitems
      rw [writeItems, writeItems]
      simp only [List.cons_append, List.append_assoc]
      rw [unspaced_cons (by decide) (by decide), unspaced_lineBreak, hitem level other _ hstyle,
        ih hitems]
      rfl

theorem unspaced_colon {style : Style} (hstyle : style.Legible) (rest : List Char) :
    unspaced false (style.colon ++ rest) = ':' :: unspaced false rest := by
  obtain ⟨blanks, hcolon, hblanks⟩ := hstyle
  rw [hcolon, List.cons_append, unspaced_cons (by decide) (by decide), unspaced_blanks hblanks]

theorem unspaced_writeFields {style : Style} (hstyle : style.Legible)
    {fields : List (List UInt16 × Json)} (hfields : ∀ field ∈ fields, Unspaces field.2)
    (level other : Nat) (rest : List Char) :
    unspaced false (writeFields style level fields ++ rest) =
      writeFields .compact other fields ++ unspaced false rest := by
  induction fields with
  | nil =>
      rw [writeFields, writeFields]
      rfl
  | cons field fields ih =>
      obtain ⟨name, value⟩ := field
      obtain ⟨hvalue, hfields⟩ := List.forall_mem_cons.mp hfields
      rw [writeFields, writeFields]
      simp only [List.cons_append, List.append_assoc]
      rw [unspaced_cons (by decide) (by decide), unspaced_lineBreak, unspaced_writeText,
        unspaced_colon hstyle, hvalue level other _ hstyle, ih hfields]
      rfl

theorem unspaces_atom {json : Json} (hjson : json.opener = '0')
    (hsame : ∀ style level other, writeAt style level json = writeAt .compact other json) :
    Unspaces json := by
  intro style level other rest _
  rw [(atomic_writeAt hjson style level).unspaced_append, hsame style level other]

theorem Exact.unspaces {json : Json} (h : json.Exact) : Unspaces json := by
  induction h with
  | null => exact unspaces_atom rfl fun _ _ _ => by rw [writeAt, writeAt]
  | bool b => exact unspaces_atom rfl fun _ _ _ => by cases b <;> rw [writeAt, writeAt]
  | int n => exact unspaces_atom rfl fun _ _ _ => by rw [writeAt, writeAt]
  | text s =>
      intro style level other rest _
      rw [ofString, writeAt, writeAt, unspaced_writeText]
  | @array items _ ih =>
      intro style level other rest hstyle
      cases items with
      | nil =>
          rw [writeAt, writeAt]
          rfl
      | cons item items =>
          obtain ⟨hitem, hitems⟩ := List.forall_mem_cons.mp ih
          rw [writeAt, writeAt]
          simp only [List.cons_append, List.append_assoc, List.nil_append]
          rw [unspaced_cons (by decide) (by decide), unspaced_lineBreak,
            hitem _ (other + 1) _ hstyle, unspaced_writeItems hstyle hitems _ (other + 1),
            unspaced_lineBreak, unspaced_cons (by decide) (by decide)]
          rfl
  | @object fields _ _ ih =>
      intro style level other rest hstyle
      cases fields with
      | nil =>
          rw [ofFields, List.map_nil, writeAt, writeAt]
          rfl
      | cons field fields =>
          obtain ⟨hvalue, hfields⟩ := List.forall_mem_cons.mp ih
          rw [ofFields, List.map_cons, writeAt, writeAt]
          simp only [List.cons_append, List.append_assoc, List.nil_append]
          rw [unspaced_cons (by decide) (by decide), unspaced_lineBreak, unspaced_writeText,
            unspaced_colon hstyle, hvalue _ (other + 1) _ hstyle,
            unspaced_writeFields hstyle (forall_mem_units hfields) _ (other + 1),
            unspaced_lineBreak, unspaced_cons (by decide) (by decide)]
          rfl

end Blockscript.Json
