import LambdaTrace.Macros.Table
import LambdaTrace.Proofs.Reading.Rules
import LambdaTrace.Term.Print

/-!
# Reading what was printed

A term is *readable* if its names are those that the grammar knows, and its references
stand for what their names are resolved to (`LambdaTrace.Term.Readable`). Such a term
is read back from its printed form, and whatever is read is such a term; so printing
and reading again changes nothing (`LambdaTrace.MacroTable.read_pretty`). This is what
lets a table be made anew from the printed forms of its definitions.

A subterm is printed in three ways, by where it stands: alone or as a body, as a
function, and as an argument. The induction is on the term and has a statement for
each (`LambdaTrace.Term.ReadBack`). An abstraction extends as far as it can, so it is
read back only where the text is over or a parenthesis closes. A function is read as a
prefix of a longer row of terms, so what is said of it is with which arguments the row
goes on.
-/

namespace LambdaTrace

/-! ### Readable terms -/

/-- Whether a name is a word of a class of characters. -/
def IsWord (p : Char → Bool) (n : String) : Prop :=
  n.toList ≠ [] ∧ n.toList.all p = true

instance (p : Char → Bool) (n : String) : Decidable (IsWord p n) :=
  inferInstanceAs (Decidable (n.toList ≠ [] ∧ n.toList.all p = true))

theorem IsWord.of_mem {p : Char → Bool} {n : String} (h : IsWord p n) {c : Char}
    (hc : c ∈ n.toList) : p c = true :=
  List.all_eq_true.mp h.2 c hc

/-- A word that is read is a word of its class. -/
theorem isWord_of_readRun {p : Char → Bool} {s w r : List Char} (h : readRun p s = some (w, r)) :
    IsWord p (String.ofList w) := by
  obtain ⟨hne, hw⟩ := (of_readRun h).1
  rw [IsWord, String.toList_ofList]
  exact ⟨hne, List.all_eq_true.mpr hw⟩

/-- A word is read back where another class begins. -/
theorem IsWord.readRun {p : Char → Bool} {n : String} (h : IsWord p n) {rest : List Char}
    (hrest : StartsOutside p rest) : readRun p (n.toList ++ rest) = some (n.toList, rest) :=
  readRun_append_of_all h.1 (fun _ hc => h.of_mem hc) hrest

namespace Term

/-- **Whether a term can be read**: variables are words or placeholders, binders are
words, and references have a word for a name and stand for what it is resolved to. -/
def Readable (resolve : String → Option Term) : Term → Prop
  | .var x => x = "..." ∨ IsWord isVarChar x
  | .app f a => f.Readable resolve ∧ a.Readable resolve
  | .abs x b => IsWord isVarChar x ∧ b.Readable resolve
  | .ref n t => IsWord isMacroChar n ∧ resolve n = some t

instance decidableReadable (resolve : String → Option Term) :
    ∀ t : Term, Decidable (t.Readable resolve)
  | .var x => inferInstanceAs (Decidable (x = "..." ∨ IsWord isVarChar x))
  | .app f a =>
    have := decidableReadable resolve f
    have := decidableReadable resolve a
    inferInstanceAs (Decidable (f.Readable resolve ∧ a.Readable resolve))
  | .abs x b =>
    have := decidableReadable resolve b
    inferInstanceAs (Decidable (IsWord isVarChar x ∧ b.Readable resolve))
  | .ref n t => inferInstanceAs (Decidable (IsWord isMacroChar n ∧ resolve n = some t))

/-! ### Printed parts -/

/-- The characters of a term that is printed as a function. -/
def fnChars (t : Term) : List Char :=
  if t.isAbs then parenthesized t.chars else t.chars

/-- The characters of a term that is printed as an argument. -/
def argChars (t : Term) : List Char :=
  if t.isApp || t.isAbs then parenthesized t.chars else t.chars

theorem chars_app (f a : Term) : (app f a).chars = f.fnChars ++ ' ' :: a.argChars := rfl

end Term

/-- Whether an expression that extends as far as it can has to end here. -/
def Closes (rest : List Char) : Prop :=
  rest = [] ∨ ∃ r, rest = ')' :: r

/-- Whether a single term has to end here. -/
def Ends (rest : List Char) : Prop :=
  Closes rest ∨ ∃ r, rest = ' ' :: r

section Rests

variable {resolve : String → Option Term} {rest s : List Char} {t f : Term}

theorem Ends.startsOutside_isVarChar (h : Ends rest) : StartsOutside isVarChar rest := by
  rcases h with (rfl | ⟨r, rfl⟩) | ⟨r, rfl⟩ <;> simp [StartsOutside] <;> decide

theorem Ends.startsOutside_isMacroChar (h : Ends rest) : StartsOutside isMacroChar rest := by
  rcases h with (rfl | ⟨r, rfl⟩) | ⟨r, rfl⟩ <;> simp [StartsOutside] <;> decide

theorem Closes.dropBlank (h : Closes rest) : dropBlank rest = rest := by
  rcases h with rfl | ⟨r, rfl⟩ <;> rfl

/-- No arguments follow where an expression has to end. -/
theorem Closes.argsAt (h : Closes rest) :
    argsAt resolve f (LambdaTrace.dropBlank rest) = .ok (f, rest) := by
  rw [h.dropBlank, argsAt_eq, termAt_eq_none h]

/-- A term in front is the function of the arguments that follow it. -/
theorem exprAt_of_termAt (hs : StartsOutside isBlank s)
    (h : termAt resolve s = .ok (some (t, rest))) :
    exprAt resolve s = argsAt resolve t (dropBlank rest) := by
  rw [exprAt_eq, dropBlank_of_startsOutside hs, h]

/-- An expression may start with a blank. -/
theorem exprAt_blank (s : List Char) : exprAt resolve (' ' :: s) = exprAt resolve s := by
  rw [exprAt_eq, exprAt_eq]
  rfl

end Rests

namespace Term

variable {resolve : String → Option Term} {t : Term}

/-- A printed term starts with a character that is no blank. -/
theorem exists_cons_chars (h : t.Readable resolve) :
    ∃ c cs, t.chars = c :: cs ∧ isBlank c = false := by
  induction t with
  | var x =>
    rcases h with rfl | hw
    · exact ⟨'.', ['.', '.'], rfl, by decide⟩
    · obtain ⟨c, cs, hx⟩ := List.exists_cons_of_ne_nil hw.1
      exact ⟨c, cs, hx, isBlank_of_isVarChar (hw.of_mem (hx ▸ List.mem_cons_self))⟩
  | app f a ihf _ =>
    rw [chars_app, fnChars]
    cases f.isAbs with
    | true => exact ⟨'(', _, rfl, by decide⟩
    | false =>
      obtain ⟨c, cs, hf, hc⟩ := ihf h.1
      exact ⟨c, cs ++ ' ' :: a.argChars, by simp [hf], hc⟩
  | abs x b _ => exact ⟨'λ', _, rfl, by decide⟩
  | ref n t _ =>
    obtain ⟨c, cs, hn⟩ := List.exists_cons_of_ne_nil h.1.1
    exact ⟨c, cs, hn, isBlank_of_isMacroChar (h.1.of_mem (hn ▸ List.mem_cons_self))⟩

theorem startsOutside_chars (h : t.Readable resolve) (rest : List Char) :
    StartsOutside isBlank (t.chars ++ rest) := by
  obtain ⟨c, cs, hcs, hc⟩ := exists_cons_chars h
  rw [hcs]
  exact startsOutside_cons hc _

theorem startsOutside_fnChars (h : t.Readable resolve) (rest : List Char) :
    StartsOutside isBlank (t.fnChars ++ rest) := by
  rw [fnChars]
  split
  · exact startsOutside_cons (by decide) _
  · exact startsOutside_chars h rest

theorem startsOutside_argChars (h : t.Readable resolve) (rest : List Char) :
    StartsOutside isBlank (t.argChars ++ rest) := by
  rw [argChars]
  split
  · exact startsOutside_cons (by decide) _
  · exact startsOutside_chars h rest

/-! ### Reading back -/

/-- **A term is read back** from each of its three printed forms. -/
structure ReadBack (resolve : String → Option Term) (t : Term) : Prop where
  /-- As an expression, where that has to end. -/
  expr : ∀ rest, Closes rest → exprAt resolve (t.chars ++ rest) = .ok (t, rest)
  /-- As a function, with the arguments that follow. -/
  fn : ∀ rest, Ends rest →
    exprAt resolve (t.fnChars ++ rest) = argsAt resolve t (dropBlank rest)
  /-- As an argument. -/
  arg : ∀ rest, Ends rest → termAt resolve (t.argChars ++ rest) = .ok (some (t, rest))

/-- A term in parentheses is read back if the expression in them is. -/
theorem termAt_parenthesized
    (h : ∀ rest, Closes rest → exprAt resolve (t.chars ++ rest) = .ok (t, rest))
    (rest : List Char) :
    termAt resolve (parenthesized t.chars ++ rest) = .ok (some (t, rest)) := by
  have hparens : parenthesized t.chars ++ rest = '(' :: (t.chars ++ ')' :: rest) := by
    simp [parenthesized]
  rw [hparens]
  exact termAt_eq_some_iff.mpr (.parens rfl (h _ (Or.inr ⟨rest, rfl⟩)) rfl)

/-- A term that is read as an argument is read as a function, and one that is read as a
function is read as an expression, if it is printed alike there. -/
theorem ReadBack.of_arg (h : t.Readable resolve) (hexpr : t.fnChars = t.chars)
    (hfn : t.argChars = t.fnChars)
    (harg : ∀ rest, Ends rest → termAt resolve (t.argChars ++ rest) = .ok (some (t, rest))) :
    t.ReadBack resolve := by
  have hf : ∀ rest, Ends rest →
      exprAt resolve (t.fnChars ++ rest) = argsAt resolve t (dropBlank rest) := by
    intro rest hrest
    refine exprAt_of_termAt (startsOutside_fnChars h rest) ?_
    rw [← hfn]
    exact harg rest hrest
  refine ⟨fun rest hrest => ?_, hf, harg⟩
  rw [← hexpr, hf rest (Or.inl hrest), hrest.argsAt]

theorem readBack_var {x : String} (h : (var x).Readable resolve) :
    (var x).ReadBack resolve := by
  refine .of_arg h rfl rfl fun rest hrest => termAt_eq_some_iff.mpr ?_
  show TermAt resolve (x.toList ++ rest) (.var x) rest
  rcases h with rfl | hw
  · exact .dots rfl
  · have hterm : TermAt resolve (x.toList ++ rest) (.var (String.ofList x.toList)) rest :=
      .var (hw.readRun hrest.startsOutside_isVarChar)
    rwa [String.ofList_toList] at hterm

theorem readBack_ref {n : String} {e : Term} (h : (ref n e).Readable resolve) :
    (ref n e).ReadBack resolve := by
  refine .of_arg h rfl rfl fun rest hrest => termAt_eq_some_iff.mpr ?_
  show TermAt resolve (n.toList ++ rest) (.ref n e) rest
  obtain ⟨hw, hn⟩ := h
  have hterm : TermAt resolve (n.toList ++ rest) (.ref (String.ofList n.toList) e) rest :=
    .ref (hw.readRun hrest.startsOutside_isMacroChar) (by rwa [String.ofList_toList])
  rwa [String.ofList_toList] at hterm

/-- The argument is read after the function, as one more of its arguments. -/
theorem readBack_app {f a : Term} (h : (app f a).Readable resolve)
    (hf : f.ReadBack resolve) (ha : a.ReadBack resolve) : (app f a).ReadBack resolve := by
  have hfn : ∀ rest, Ends rest →
      exprAt resolve ((app f a).fnChars ++ rest) = argsAt resolve (.app f a) (dropBlank rest) := by
    intro rest hrest
    -- the blank ends the function, and is passed over before the argument
    have hblank : Ends (' ' :: (a.argChars ++ rest)) := Or.inr ⟨_, rfl⟩
    have hdrop : dropBlank (' ' :: (a.argChars ++ rest)) = a.argChars ++ rest :=
      dropBlank_of_startsOutside (startsOutside_argChars h.2 rest)
    calc exprAt resolve ((app f a).fnChars ++ rest)
        = exprAt resolve (f.fnChars ++ ' ' :: (a.argChars ++ rest)) := by
          simp [fnChars, isAbs, chars_app]
      _ = argsAt resolve f (a.argChars ++ rest) := by rw [hf.fn _ hblank, hdrop]
      _ = argsAt resolve (.app f a) (dropBlank rest) := by
          rw [argsAt_eq, ha.arg rest hrest]
  have hexpr : ∀ rest, Closes rest →
      exprAt resolve ((app f a).chars ++ rest) = .ok (.app f a, rest) := by
    intro rest hrest
    have hsame : (app f a).fnChars = (app f a).chars := rfl
    rw [← hsame, hfn rest (Or.inl hrest), hrest.argsAt]
  exact ⟨hexpr, hfn, fun rest _ => termAt_parenthesized hexpr rest⟩

/-- The body extends to where the whole ends. -/
theorem readBack_abs {x : String} {b : Term} (h : (abs x b).Readable resolve)
    (hb : b.ReadBack resolve) : (abs x b).ReadBack resolve := by
  have hexpr : ∀ rest, Closes rest →
      exprAt resolve ((abs x b).chars ++ rest) = .ok (.abs x b, rest) := by
    intro rest hrest
    have hchars : (abs x b).chars ++ rest =
        'λ' :: (x.toList ++ '.' :: ' ' :: (b.chars ++ rest)) := by
      simp [chars]
    have hbinder : Lexeme.varName.read (dropBlank (x.toList ++ '.' :: ' ' :: (b.chars ++ rest))) =
        some (x.toList, '.' :: ' ' :: (b.chars ++ rest)) := by
      have hstart : StartsOutside isBlank (x.toList ++ '.' :: ' ' :: (b.chars ++ rest)) :=
        @startsOutside_chars resolve (var x) (Or.inr h.1) _
      rw [dropBlank_of_startsOutside hstart]
      exact h.1.readRun (startsOutside_cons (by decide) _)
    have hbody : exprAt resolve (' ' :: (b.chars ++ rest)) = .ok (b, rest) := by
      rw [exprAt_blank]
      exact hb.expr rest hrest
    have hterm : TermAt resolve ('λ' :: (x.toList ++ '.' :: ' ' :: (b.chars ++ rest)))
        (.abs (String.ofList x.toList) b) rest :=
      .abs rfl hbinder rfl hbody
    rw [String.ofList_toList, ← hchars] at hterm
    rw [exprAt_of_termAt (startsOutside_chars h rest) (termAt_eq_some_iff.mpr hterm), hrest.argsAt]
  have harg : ∀ rest, termAt resolve (parenthesized (abs x b).chars ++ rest) =
      .ok (some (.abs x b, rest)) := termAt_parenthesized hexpr
  refine ⟨hexpr, fun rest _ => ?_, fun rest _ => harg rest⟩
  exact exprAt_of_termAt (startsOutside_fnChars h rest) (harg rest)

/-- **Readable terms are read back.** -/
theorem readBack_of_readable (h : t.Readable resolve) : t.ReadBack resolve := by
  induction t with
  | var x => exact readBack_var h
  | app f a ihf iha => exact readBack_app h (ihf h.1) (iha h.2)
  | abs x b ih => exact readBack_abs h (ih h.2)
  | ref n t _ => exact readBack_ref h

theorem parse_pretty_of_readable (h : t.Readable resolve) : parse resolve t.pretty = .ok t := by
  have hexpr := (readBack_of_readable h).expr [] (Or.inl rfl)
  rw [List.append_nil] at hexpr
  rw [parse_eq_ok_iff, pretty, String.toList_ofList]
  exact hexpr

/-! ### What is read is readable -/

/-- Whether a term is readable, if the one is whose arguments were read. -/
def ReadableAs (resolve : String → Option Term) (t : Term) : Part → Prop
  | .term | .expr => t.Readable resolve
  | .args f => f.Readable resolve → t.Readable resolve

/-- **What is read is readable.** -/
theorem readableAs_of_reads {part : Part} {s r : List Char} (h : Reads resolve part s t r) :
    t.ReadableAs resolve part := by
  induction h with
  | dots _ => exact Or.inl rfl
  | var hw => exact Or.inr (isWord_of_readRun hw)
  | ref hw ht => exact ⟨isWord_of_readRun hw, ht⟩
  | abs _ hx _ _ ih => exact ⟨isWord_of_readRun hx, ih⟩
  | parens _ _ _ ih => exact ih
  | expr _ _ ih iha => exact iha ih
  | arg _ _ ih iha => exact fun hf => iha ⟨hf, ih⟩
  | done _ => exact fun hf => hf

theorem readable_of_exprAt {s r : List Char} (h : exprAt resolve s = .ok (t, r)) :
    t.Readable resolve :=
  readableAs_of_reads (reads_of_exprAt h)

theorem readable_of_parseFrom {source : String} {start : Nat}
    (h : parseFrom resolve source start = .ok t) : t.Readable resolve :=
  readable_of_exprAt (parseFrom_eq_ok_iff.mp h)

theorem readable_of_parse {source : String} (h : parse resolve source = .ok t) :
    t.Readable resolve :=
  readable_of_parseFrom h

end Term

namespace MacroTable

open Term

/-- **Reading undoes printing**, with the macros of a table and under any strategy: the
terms that are read back from their printed forms are the readable ones, and what is
read from any text is among them. -/
theorem read_pretty (table : MacroTable) (strategy : Strategy) :
    (∀ t : Term, t.Readable (table.resolve strategy) ↔
      parse (table.resolve strategy) t.pretty = .ok t) ∧
    ∀ (source : String) (t : Term), parse (table.resolve strategy) source = .ok t →
      parse (table.resolve strategy) t.pretty = .ok t := by
  refine ⟨fun t => ⟨parse_pretty_of_readable, readable_of_parse⟩, fun source t ht => ?_⟩
  exact parse_pretty_of_readable (readable_of_parse ht)

/-- A table of one macro. -/
def identityTable : MacroTable :=
  ⟨32, [⟨"I", none, none, some (.abs "x" (.var "x")), .abs "x" (.var "x"), 32⟩]⟩

/-- A term with a part of every kind. -/
def mixedTerm : Term :=
  .app (.app (.abs "x" (.app (.var "x") dots)) (.ref "I" (.abs "x" (.var "x"))))
    (.app (.var "y0") (.abs "z" (.var "z")))

/-- The term with other blanks and parentheses than it is printed with. -/
def mixedText : String := " (\\x . x...)I((y0  \\z.z))"

theorem read_pretty_mixedTerm :
    mixedTerm.Readable (identityTable.resolve .cbn) ∧
      parse (identityTable.resolve .cbn) mixedTerm.pretty = .ok mixedTerm ∧
      parse (identityTable.resolve .cbn) mixedText = .ok mixedTerm ∧
      parse (identityTable.resolve .cbn) mixedTerm.pretty = .ok mixedTerm := by
  have h : mixedTerm.Readable (identityTable.resolve .cbn) := by decide
  have htext : (parse (identityTable.resolve .cbn) mixedText).toOption = some mixedTerm := by
    decide +kernel
  have hparse : parse (identityTable.resolve .cbn) mixedText = .ok mixedTerm := by
    cases hp : parse (identityTable.resolve .cbn) mixedText with
    | error e => simp [hp, Except.toOption] at htext
    | ok t => rw [hp] at htext; simpa [Except.toOption] using htext
  exact ⟨h, ((read_pretty identityTable .cbn).1 mixedTerm).mp h, hparse,
    (read_pretty identityTable .cbn).2 mixedText mixedTerm hparse⟩

end MacroTable

end LambdaTrace
