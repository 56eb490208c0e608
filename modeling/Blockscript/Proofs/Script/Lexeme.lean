import Blockscript.Proofs.Script.Numeral

/-!
Lexemes: the texts that each terminal stands for.  A terminal reads lexemes of
its own only, it reads a lexeme whole when the text behind it cannot go on with
it, and terminals that are apart never read at the same place.
-/

namespace Blockscript.Script

/-! ### Names and quoted texts -/

/-- A name: a letter or underscore, then letters, digits and underscores, and
no reserved word. -/
inductive IsName : List Char → Prop
  | intro {c : Char} {rest : List Char} (hstart : isNameStart c = true)
      (hrest : ∀ d ∈ rest, isNameChar d = true)
      (hfree : String.ofList (c :: rest) ∉ reservedWords) : IsName (c :: rest)

theorem isNameChar_of_isNameStart {c : Char} (hc : isNameStart c = true) :
    isNameChar c = true := by
  simp only [isNameStart, Bool.or_eq_true] at hc
  simp only [isNameChar, Char.isAlphanum, Bool.or_eq_true]
  rcases hc with halpha | hunderscore
  · exact .inl (.inl halpha)
  · exact .inr hunderscore

theorem IsName.all {name : List Char} (hname : IsName name) :
    ∀ c ∈ name, isNameChar c = true := by
  cases hname with
  | intro hstart hrest hfree =>
      intro c hc
      rcases List.mem_cons.mp hc with rfl | hc
      · exact isNameChar_of_isNameStart hstart
      · exact hrest c hc

theorem splitName_eq_some {cs name rest : List Char}
    (h : splitName cs = some (name, rest)) : cs = name ++ rest ∧ IsName name := by
  cases cs with
  | nil => contradiction
  | cons c cs =>
      simp only [splitName] at h
      split at h
      · rename_i hstart
        split at h
        · contradiction
        · rename_i hfree
          cases h
          refine ⟨?_, .intro hstart (List.all_eq_true.mp List.all_takeWhile) hfree⟩
          rw [List.cons_append, List.takeWhile_append_dropWhile]
      · contradiction

theorem splitName_append {name rest : List Char} (hname : IsName name)
    (hstops : Stops isNameChar rest) : splitName (name ++ rest) = some (name, rest) := by
  cases hname with
  | intro hstart hrest hfree =>
      simp only [List.cons_append, splitName, hstart, ↓reduceIte,
        takeWhile_append_of_stops hrest hstops, dropWhile_append_of_stops hrest hstops, hfree]

/-- What can stand between two quotes: no quote and no line feed, and a
backslash only together with the character behind it. -/
inductive IsQuotable : List Char → Prop
  | nil : IsQuotable []
  | plain {c : Char} {rest : List Char} (hquote : c ≠ '"') (hslash : c ≠ '\\')
      (hline : c ≠ '\n') (hrest : IsQuotable rest) : IsQuotable (c :: rest)
  | escape {c : Char} {rest : List Char} (hline : c ≠ '\n') (hrest : IsQuotable rest) :
      IsQuotable ('\\' :: c :: rest)

inductive IsLiteral : List Char → Prop
  | intro {content : List Char} (hcontent : IsQuotable content) :
      IsLiteral ('"' :: (content ++ ['"']))

theorem splitQuoted_eq_some {cs quoted rest : List Char}
    (h : splitQuoted cs = some (quoted, rest)) :
    cs = quoted ++ rest ∧ ∃ content, quoted = content ++ ['"'] ∧ IsQuotable content := by
  induction cs using splitQuoted.induct generalizing quoted with
  | case1 after =>
      simp only [splitQuoted, Option.some.injEq, Prod.mk.injEq] at h
      obtain ⟨rfl, rfl⟩ := h
      exact ⟨rfl, [], rfl, .nil⟩
  | case2 after => simp [splitQuoted] at h
  | case3 c after hline ih =>
      simp only [splitQuoted, hline, ↓reduceIte, Option.map_eq_some_iff] at h
      obtain ⟨⟨inner, last⟩, hinner, heq⟩ := h
      cases heq
      obtain ⟨rfl, content, rfl, hcontent⟩ := ih hinner
      exact ⟨rfl, '\\' :: c :: content, rfl, .escape hline hcontent⟩
  | case4 c after hquote hpair hstop => simp [splitQuoted.eq_3 c after hquote hpair, hstop] at h
  | case5 c after hquote hpair hgoes ih =>
      simp only [splitQuoted.eq_3 c after hquote hpair, hgoes, ↓reduceIte,
        Option.map_eq_some_iff] at h
      obtain ⟨⟨inner, last⟩, hinner, heq⟩ := h
      cases heq
      obtain ⟨rfl, content, rfl, hcontent⟩ := ih hinner
      simp only [not_or] at hgoes
      exact ⟨rfl, c :: content, rfl, .plain hquote hgoes.2 hgoes.1 hcontent⟩
  | case6 => simp [splitQuoted] at h

theorem splitQuoted_append {content : List Char} (hcontent : IsQuotable content)
    (rest : List Char) :
    splitQuoted (content ++ '"' :: rest) = some (content ++ ['"'], rest) := by
  induction hcontent with
  | nil => rfl
  | @plain c content hquote hslash hline hcontent ih =>
      rw [List.cons_append, splitQuoted.eq_3 c _ hquote fun _ _ h _ => hslash h]
      simp [hline, hslash, ih]
  | escape hline hcontent ih => simp [splitQuoted, hline, ih]

theorem splitText_eq_some {cs literal rest : List Char}
    (h : splitText cs = some (literal, rest)) : cs = literal ++ rest ∧ IsLiteral literal := by
  unfold splitText at h
  split at h
  · simp only [Option.map_eq_some_iff] at h
    obtain ⟨⟨quoted, after⟩, hquoted, heq⟩ := h
    cases heq
    obtain ⟨rfl, content, rfl, hcontent⟩ := splitQuoted_eq_some hquoted
    exact ⟨rfl, .intro hcontent⟩
  · contradiction

theorem splitText_append {literal : List Char} (hliteral : IsLiteral literal)
    (rest : List Char) : splitText (literal ++ rest) = some (literal, rest) := by
  cases hliteral with
  | @intro content hcontent =>
      have hquoted := splitQuoted_append hcontent rest
      simp only [List.cons_append, List.append_assoc, List.nil_append, splitText, hquoted,
        Option.map_some]

/-! ### The quote that closes a text

The same quote can be found by looking back from it: it is the first one that stands behind an
even number of backslashes, if there is no line feed before it. -/

/-- A text that ends with an even number of backslashes. -/
def EndsEven (cs : List Char) : Prop :=
  ∃ before pairs, cs = before ++ List.replicate (2 * pairs) '\\' ∧ before.getLast? ≠ some '\\'

theorem endsEven_nil : EndsEven [] :=
  ⟨[], 0, rfl, by simp⟩

theorem getLast?_cons_ne {c : Char} (hc : c ≠ '\\') {cs : List Char}
    (h : cs.getLast? ≠ some '\\') : (c :: cs).getLast? ≠ some '\\' := by
  cases cs with
  | nil => simpa using hc
  | cons d cs => rwa [List.getLast?_cons_cons]

theorem getLast?_ne_of_cons {c : Char} {cs : List Char}
    (h : (c :: cs).getLast? ≠ some '\\') : cs.getLast? ≠ some '\\' := by
  cases cs with
  | nil => simp
  | cons d cs => rwa [List.getLast?_cons_cons] at h

theorem endsEven_cons_iff {c : Char} (hc : c ≠ '\\') {cs : List Char} :
    EndsEven (c :: cs) ↔ EndsEven cs := by
  constructor
  · rintro ⟨before, pairs, heq, hlast⟩
    cases before with
    | nil =>
        have hmem : c ∈ List.replicate (2 * pairs) '\\' := by
          rw [← List.nil_append (List.replicate _ _), ← heq]
          exact List.mem_cons_self
        exact absurd (List.eq_of_mem_replicate hmem) hc
    | cons d before =>
        cases heq
        exact ⟨before, pairs, rfl, getLast?_ne_of_cons hlast⟩
  · rintro ⟨before, pairs, rfl, hlast⟩
    exact ⟨c :: before, pairs, rfl, getLast?_cons_ne hc hlast⟩

/-- Behind a backslash and another character there are as many backslashes, or two more. -/
theorem endsEven_escape_iff {c : Char} {cs : List Char} :
    EndsEven ('\\' :: c :: cs) ↔ EndsEven cs := by
  constructor
  · rintro ⟨before, pairs, heq, hlast⟩
    rcases before with _ | ⟨d, _ | ⟨e, before⟩⟩
    · cases pairs with
      | zero => contradiction
      | succ pairs =>
          rw [Nat.mul_succ, List.nil_append, List.replicate_succ, List.replicate_succ] at heq
          cases heq
          exact ⟨[], pairs, rfl, by simp⟩
    · obtain rfl := (List.cons.inj heq).1
      exact absurd rfl hlast
    · cases heq
      exact ⟨before, pairs, rfl, getLast?_ne_of_cons (getLast?_ne_of_cons hlast)⟩
  · rintro ⟨before, pairs, rfl, hlast⟩
    cases before with
    | nil =>
        by_cases hc : c = '\\'
        · exact ⟨[], pairs + 1, by rw [hc]; rfl, by simp⟩
        · exact ⟨['\\', c], pairs, rfl, by simpa using hc⟩
    | cons d before => exact ⟨'\\' :: c :: d :: before, pairs, rfl, by simpa using hlast⟩

theorem not_endsEven_slash : ¬ EndsEven ['\\'] := by
  rintro ⟨before, pairs, heq, hlast⟩
  cases before with
  | nil =>
      have hlength := congrArg List.length heq
      simp at hlength
      omega
  | cons d before =>
      obtain ⟨rfl, hnil⟩ := List.cons.inj heq
      obtain ⟨rfl, -⟩ := List.append_eq_nil_iff.mp hnil.symm
      exact hlast rfl

theorem IsQuotable.endsEven {content : List Char} (h : IsQuotable content) :
    '\n' ∉ content ∧ EndsEven content := by
  induction h with
  | nil => exact ⟨List.not_mem_nil, endsEven_nil⟩
  | plain _ hslash hline _ ih =>
      exact ⟨by simp [Ne.symm hline, ih.1], (endsEven_cons_iff hslash).mpr ih.2⟩
  | escape hline _ ih =>
      exact ⟨by simp [Ne.symm hline, ih.1], endsEven_escape_iff.mpr ih.2⟩

/-- A text up to a quote that looks back on an even number of backslashes goes to its closing
quote, here or before. -/
theorem exists_isQuotable_of_endsEven {cs : List Char} (hline : '\n' ∉ cs) (heven : EndsEven cs)
    (rest : List Char) : ∃ content last, IsQuotable content ∧ content.length ≤ cs.length ∧
      cs ++ '"' :: rest = content ++ '"' :: last := by
  induction cs using splitQuoted.induct with
  | case1 after => exact ⟨[], _, .nil, Nat.zero_le _, rfl⟩
  | case2 after => simp at hline
  | case3 c after hc ih =>
      obtain ⟨content, last, hcontent, hle, heq⟩ :=
        ih (fun hmem => hline (by simp [hmem])) (endsEven_escape_iff.mp heven)
      refine ⟨'\\' :: c :: content, last, .escape hc hcontent, by simpa using hle, ?_⟩
      rw [List.cons_append, List.cons_append, heq]
      rfl
  | case4 c after hquote hpair hstop =>
      rcases hstop with rfl | rfl
      · simp at hline
      · cases after with
        | nil => exact absurd heven not_endsEven_slash
        | cons d after => exact absurd rfl (hpair d after rfl)
  | case5 c after hquote hpair hgoes ih =>
      simp only [not_or] at hgoes
      obtain ⟨content, last, hcontent, hle, heq⟩ :=
        ih (fun hmem => hline (by simp [hmem])) ((endsEven_cons_iff hgoes.2).mp heven)
      refine ⟨c :: content, last, .plain hquote hgoes.2 hgoes.1 hcontent, by simpa using hle, ?_⟩
      rw [List.cons_append, heq]
      rfl
  | case6 => exact ⟨[], rest, .nil, Nat.le_refl 0, rfl⟩

/-- A text goes to the first quote that stands behind an even number of backslashes, and
there is no line feed before it. -/
theorem splitQuoted_eq_some_iff {cs quoted rest : List Char} :
    splitQuoted cs = some (quoted, rest) ↔
      ∃ content, quoted = content ++ ['"'] ∧ cs = content ++ '"' :: rest ∧
        '\n' ∉ content ∧ EndsEven content ∧
        ∀ other last, cs = other ++ '"' :: last → EndsEven other →
          content.length ≤ other.length := by
  constructor
  · intro h
    obtain ⟨rfl, content, rfl, hcontent⟩ := splitQuoted_eq_some h
    refine ⟨content, rfl, List.append_assoc _ _ _, hcontent.endsEven.1, hcontent.endsEven.2, ?_⟩
    intro other last heq heven
    refine Nat.le_of_not_lt fun hless => ?_
    -- An earlier quote would stand inside the text, so it would close it.
    have hinside : other <+: content := by
      refine List.prefix_of_prefix_length_le ⟨'"' :: last, heq.symm⟩ ?_ (Nat.le_of_lt hless)
      exact ⟨'"' :: rest, by simp⟩
    have hline : '\n' ∉ other := fun hmem => hcontent.endsEven.1 (hinside.subset hmem)
    obtain ⟨first, after, hfirst, hle, hsame⟩ := exists_isQuotable_of_endsEven hline heven last
    have hagain := splitQuoted_append hfirst after
    rw [← hsame, ← heq, h, Option.some.injEq, Prod.mk.injEq] at hagain
    have hlength := congrArg List.length hagain.1
    simp only [List.length_append, List.length_singleton] at hlength
    omega
  · rintro ⟨content, rfl, rfl, hline, heven, hfirst⟩
    obtain ⟨closed, last, hclosed, hle, heq⟩ := exists_isQuotable_of_endsEven hline heven rest
    have hlength := Nat.le_antisymm (hfirst closed last heq hclosed.endsEven.2) hle
    obtain ⟨rfl, -⟩ := List.append_inj heq hlength
    exact splitQuoted_append hclosed rest

/-! ### Words, scope words and operators -/

theorem splitWord_eq_some {word cs found rest : List Char}
    (h : splitWord word cs = some (found, rest)) : cs = found ++ rest ∧ found = word := by
  induction word generalizing cs found with
  | nil =>
      cases h
      exact ⟨rfl, rfl⟩
  | cons c word ih =>
      cases cs with
      | nil => contradiction
      | cons d cs =>
          rw [splitWord] at h
          split at h
          · rename_i hc
            subst hc
            simp only [Option.map_eq_some_iff] at h
            obtain ⟨⟨inner, after⟩, hinner, heq⟩ := h
            cases heq
            obtain ⟨rfl, rfl⟩ := ih hinner
            exact ⟨rfl, rfl⟩
          · contradiction

theorem splitWord_append (word rest : List Char) :
    splitWord word (word ++ rest) = some (word, rest) := by
  induction word with
  | nil => rfl
  | cons c word ih => simp [splitWord, ih]

def IsScope (cs : List Char) : Prop :=
  ∃ word ∈ scopeWords, cs = word.toList ++ [':']

theorem splitScope_eq_some {cs scope rest : List Char}
    (h : splitScope cs = some (scope, rest)) :
    cs = scope ++ rest ∧ IsScope scope ∧ Stops (· == ':') rest := by
  obtain ⟨word, hword, hsplit⟩ := List.exists_of_findSome?_eq_some h
  split at hsplit
  · contradiction
  · rename_i hcolon
    obtain ⟨rfl, rfl⟩ := splitWord_eq_some hsplit
    refine ⟨rfl, ⟨word, hword, rfl⟩, ?_⟩
    intro c hc
    obtain ⟨tail, rfl⟩ := List.head?_eq_some_iff.mp hc
    simp only [beq_eq_false_iff_ne, ne_eq]
    rintro rfl
    exact hcolon _ _ hsplit

theorem splitScope_append {scope rest : List Char} (hscope : IsScope scope)
    (hstops : Stops (· == ':') rest) : splitScope (scope ++ rest) = some (scope, rest) := by
  obtain ⟨word, hword, rfl⟩ := hscope
  simp only [scopeWords, List.mem_cons, List.not_mem_nil, or_false] at hword
  cases rest with
  | nil => rcases hword with rfl | rfl | rfl <;> rfl
  | cons c rest =>
      have hcolon : c ≠ ':' := by simpa using hstops c rfl
      rcases hword with rfl | rfl | rfl <;>
        simp [splitScope, scopeWords, splitWord, hcolon]

def operatorSigns : List Char :=
  ['=', '+', '-', '*', '/', '%']

theorem splitOperator_eq_some {cs sign rest : List Char}
    (h : splitOperator cs = some (sign, rest)) :
    cs = sign ++ rest ∧ ∃ c ∈ operatorSigns, sign = [c] := by
  cases cs with
  | nil => contradiction
  | cons c cs =>
      rw [splitOperator] at h
      split at h
      · rename_i hc
        cases h
        exact ⟨rfl, c, hc, rfl⟩
      · contradiction

/-! ### The lexemes of a terminal -/

namespace Terminal

/-- The text of a terminal that has only one; empty for the others. -/
def fixedText : Terminal → String
  | scopePrefix | number | ident | text | operator => ""
  | entity => "entity"
  | player => "player"
  | select => "select"
  | event => "event"
  | start => "start"
  | call => "call"
  | else_ => "else"
  | func => "func"
  | plot => "plot"
  | proc => "proc"
  | loc => "loc"
  | var => "var"
  | vec => "vec"
  | arrow => "->"
  | doubleColon => "::"
  | if_ => "if"
  | comma => ","
  | dot => "."
  | leftBrace => "\x7b"
  | leftParen => "("
  | not => "!"
  | rightBrace => "\x7d"
  | rightParen => ")"
  | semicolon => ";"

/-- The texts that a terminal stands for. -/
def IsLexeme : Terminal → List Char → Prop
  | scopePrefix, cs => IsScope cs
  | number, cs => IsNumeral cs
  | ident, cs => IsName cs
  | text, cs => IsLiteral cs
  | operator, cs => ∃ c ∈ operatorSigns, cs = [c]
  | t, cs => cs = t.fixedText.toList

/-- The text behind a lexeme does not go on with it, and a name that is a scope
word does not become a scope. -/
def Ends : Terminal → List Char → Prop
  | scopePrefix, rest => Stops (· == ':') rest
  | number, rest => Stops isNumeralChar rest
  | ident, rest => Stops isNameChar rest ∧ ∀ tail, rest = ':' :: tail → tail.head? = some ':'
  | _, _ => True

/-- A terminal reads one of its lexemes at the beginning of the text. -/
theorem split?_eq_some {t : Terminal} {cs lexeme rest : List Char}
    (h : t.split? cs = some (lexeme, rest)) : cs = lexeme ++ rest ∧ t.IsLexeme lexeme := by
  cases t with
  | scopePrefix =>
      obtain ⟨hcs, hscope, -⟩ := splitScope_eq_some h
      exact ⟨hcs, hscope⟩
  | number => exact splitNumber_eq_some h
  | ident => exact splitName_eq_some h
  | text => exact splitText_eq_some h
  | operator => exact splitOperator_eq_some h
  | _ => exact splitWord_eq_some h

/-- A terminal reads a lexeme whole when the text behind it ends it. -/
theorem split?_append {t : Terminal} {lexeme rest : List Char} (hlexeme : t.IsLexeme lexeme)
    (hends : t.Ends rest) : t.split? (lexeme ++ rest) = some (lexeme, rest) := by
  cases t with
  | scopePrefix => exact splitScope_append hlexeme hends
  | number => exact splitNumber_append hlexeme hends
  | ident => exact splitName_append hlexeme hends.1
  | text => exact splitText_append hlexeme rest
  | operator =>
      obtain ⟨c, hc, rfl⟩ := hlexeme
      exact if_pos hc
  | _ =>
      cases hlexeme
      exact splitWord_append _ rest

/-- The characters that a lexeme of a terminal can begin with. -/
def begins (t : Terminal) (c : Char) : Bool :=
  match t with
  | scopePrefix => c ∈ ['l', 'g', 's']
  | number => c.isDigit || c ∈ ['+', '-', '.']
  | ident => isNameStart c
  | text => c == '"'
  | operator => c ∈ operatorSigns
  | t => t.fixedText.toList.head? == some c

theorem IsLexeme.begins {t : Terminal} {lexeme : List Char} (hlexeme : t.IsLexeme lexeme) :
    ∃ c rest, lexeme = c :: rest ∧ t.begins c = true := by
  cases t with
  | scopePrefix =>
      obtain ⟨word, hword, rfl⟩ := hlexeme
      simp only [scopeWords, List.mem_cons, List.not_mem_nil, or_false] at hword
      rcases hword with rfl | rfl | rfl
      · exact ⟨'l', _, rfl, rfl⟩
      · exact ⟨'g', _, rfl, rfl⟩
      · exact ⟨'s', _, rfl, rfl⟩
  | number =>
      obtain ⟨c, rest, rfl, hc⟩ := IsNumeral.head hlexeme
      refine ⟨c, rest, rfl, ?_⟩
      simpa [Terminal.begins] using hc
  | ident =>
      cases hlexeme with
      | intro hstart hrest hfree => exact ⟨_, _, rfl, hstart⟩
  | text =>
      cases hlexeme with
      | intro hcontent => exact ⟨'"', _, rfl, rfl⟩
  | operator =>
      obtain ⟨c, hc, rfl⟩ := hlexeme
      exact ⟨c, [], rfl, decide_eq_true hc⟩
  | _ =>
      cases hlexeme
      exact ⟨_, _, rfl, rfl⟩

theorem IsLexeme.eq_fixedText {t : Terminal} {lexeme : List Char}
    (hlexeme : t.IsLexeme lexeme) (hfixed : t.fixedText.toList ≠ []) :
    lexeme = t.fixedText.toList := by
  cases t with
  | scopePrefix | number | ident | text | operator => exact absurd rfl hfixed
  | _ => exact hlexeme

/-! ### Terminals that never read at the same place -/

/-- Characters by what can begin with them: names and scopes, quoted texts,
numbers and operators. -/
inductive Beginning where
  | letter
  | quote
  | sign
deriving DecidableEq

/-- How a character begins a lexeme that is not fixed. -/
def Beginning.ofChar (c : Char) : Beginning :=
  if isNameStart c then .letter else if c = '"' then .quote else .sign

/-- How the lexemes of a terminal without a fixed text begin. -/
def beginning : Terminal → Beginning
  | ident | scopePrefix => .letter
  | text => .quote
  | _ => .sign

theorem isAlpha_eq (c : Char) :
    c.isAlpha = (decide (c.val ≥ 'A'.val ∧ c.val ≤ 'Z'.val) ||
      (decide (c.val ≥ 'a'.val) && decide (c.val ≤ 'z'.val))) :=
  rfl

theorem not_isNameStart_of_isDigit {c : Char} (hc : c.isDigit = true) :
    isNameStart c = false := by
  simp only [Char.isDigit, Bool.and_eq_true, decide_eq_true_eq] at hc
  simp only [isNameStart, isAlpha_eq, Bool.or_eq_false_iff, Bool.and_eq_false_iff,
    decide_eq_false_iff_not, beq_eq_false_iff_ne, ne_eq]
  refine ⟨?_, ?_⟩
  · have := hc.2
    grind
  · rintro rfl
    exact absurd hc (by decide)

theorem beginning_eq_of_begins {t : Terminal} {c : Char} (ht : t.fixedText.toList = [])
    (hc : t.begins c = true) : t.beginning = Beginning.ofChar c := by
  cases t with
  | scopePrefix =>
      simp only [begins, List.mem_cons, List.not_mem_nil, or_false, decide_eq_true_eq] at hc
      rcases hc with rfl | rfl | rfl <;> decide
  | number =>
      simp only [begins, Bool.or_eq_true, List.mem_cons, List.not_mem_nil, or_false,
        decide_eq_true_eq] at hc
      rcases hc with hdigit | rfl | rfl | rfl
      · have hquote : c ≠ '"' := by
          rintro rfl
          contradiction
        simp [beginning, Beginning.ofChar, not_isNameStart_of_isDigit hdigit, hquote]
      all_goals decide
  | ident => simp_all [begins, beginning, Beginning.ofChar]
  | text =>
      simp only [begins, beq_iff_eq] at hc
      subst hc
      decide
  | operator =>
      simp only [begins, operatorSigns, List.mem_cons, List.not_mem_nil, or_false,
        decide_eq_true_eq] at hc
      rcases hc with rfl | rfl | rfl | rfl | rfl | rfl <;> decide
  | _ => contradiction

/-- Whether no text begins with a lexeme of each of two terminals. -/
def apart (t u : Terminal) : Bool :=
  match t.fixedText.toList, u.fixedText.toList with
  | [], [] => t.beginning ≠ u.beginning
  | c :: _, [] => !u.begins c
  | [], c :: _ => !t.begins c
  | c :: left, d :: right =>
      !(c :: left).isPrefixOf (d :: right) && !(d :: right).isPrefixOf (c :: left)

theorem IsLexeme.append_ne {t u : Terminal} (hapart : t.apart u = true)
    {left right : List Char} (hleft : t.IsLexeme left) (hright : u.IsLexeme right)
    (after rest : List Char) : left ++ after ≠ right ++ rest := by
  intro heq
  obtain ⟨c, left', rfl, htc⟩ := hleft.begins
  obtain ⟨d, right', rfl, hud⟩ := hright.begins
  obtain rfl : c = d := by
    simp only [List.cons_append, List.cons.injEq] at heq
    exact heq.1
  unfold apart at hapart
  split at hapart
  · rename_i ht hu
    rw [beginning_eq_of_begins ht htc, beginning_eq_of_begins hu hud] at hapart
    simp at hapart
  · rename_i c' tail ht hu
    have hfixed := hleft.eq_fixedText (by simp [ht])
    simp only [ht, List.cons.injEq] at hfixed
    rw [hfixed.1] at hud
    simp [hud] at hapart
  · rename_i c' tail ht hu
    have hfixed := hright.eq_fixedText (by simp [hu])
    simp only [hu, List.cons.injEq] at hfixed
    rw [hfixed.1] at htc
    simp [htc] at hapart
  · rename_i c' tail d' tail' ht hu
    simp only [Bool.and_eq_true, Bool.not_eq_true', ← Bool.not_eq_true,
      List.isPrefixOf_iff_prefix] at hapart
    rw [← ht, ← hu, ← hleft.eq_fixedText (by simp [ht]),
      ← hright.eq_fixedText (by simp [hu])] at hapart
    have hprefix := List.prefix_append (c :: right') rest
    rw [← heq] at hprefix
    rcases List.prefix_or_prefix_of_prefix (List.prefix_append (c :: left') after)
      hprefix with hle | hle
    · exact hapart.1 hle
    · exact hapart.2 hle

/-- A terminal that is apart from another reads nothing where the other one has
a lexeme. -/
theorem IsLexeme.split?_eq_none {t u : Terminal} {lexeme : List Char}
    (hlexeme : t.IsLexeme lexeme) (hapart : t.apart u = true) (rest : List Char) :
    u.split? (lexeme ++ rest) = none := by
  cases h : u.split? (lexeme ++ rest) with
  | none => rfl
  | some parts =>
      obtain ⟨heq, hread⟩ := split?_eq_some h
      exact absurd heq (hlexeme.append_ne hapart hread rest parts.2)

/-- A name is not read as a scope, not even when it is a scope word. -/
theorem splitScope_name_eq_none {name rest : List Char} (hname : IsName name)
    (hends : ident.Ends rest) : splitScope (name ++ rest) = none := by
  cases h : splitScope (name ++ rest) with
  | none => rfl
  | some parts =>
      obtain ⟨heq, ⟨word, hword, hscope⟩, hstops⟩ := splitScope_eq_some h
      have hall : ∀ c ∈ word.toList, isNameChar c = true := by
        simp only [scopeWords, List.mem_cons, List.not_mem_nil, or_false] at hword
        rcases hword with rfl | rfl | rfl <;> exact List.all_eq_true.mp (by decide)
      have hcolon : Stops isNameChar (':' :: parts.2) := Stops.cons (by decide) _
      rw [hscope, List.append_assoc, List.singleton_append] at heq
      have htail : rest = ':' :: parts.2 := by
        rw [← dropWhile_append_of_stops hname.all hends.1, heq,
          dropWhile_append_of_stops hall hcolon]
      have hagain := hstops ':' (hends.2 _ htail)
      contradiction

end Terminal

end Blockscript.Script
