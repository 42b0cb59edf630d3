import LambdaTrace.Proofs.Macros.History
import LambdaTrace.Proofs.Reading.Tokens
import LambdaTrace.Proofs.Text.Cut
import LambdaTrace.Statement

/-!
# The name of a definition

The name of a definition is found in two ways: the table reads it as the first token of the text
(`LambdaTrace.MacroTable.readHeader`), and the shell, to show the definition, takes what stands
before the sign of a definition (`LambdaTrace.Statement.definedName?`), looking for one sign
before the other wherever they stand in the text. Where the definition is added they agree, since
neither sign occurs in a term: the one sign that the text has is the one that was read.
-/

namespace LambdaTrace

/-! ### Texts without the sign of a definition -/

/-- A character that no sign of a definition begins with. -/
def IsOrdinary (c : Char) : Prop :=
  c ≠ '≜' ∧ c ≠ ':'

section Ordinary

variable {c : Char} {resolve : String → Option Term} {part : Part} {t : Term}
  {s w r r' : List Char}

theorem isOrdinary_of_class {p : Char → Bool} (h₁ : p '≜' = false) (h₂ : p ':' = false)
    (hc : p c = true) : IsOrdinary c :=
  ⟨fun heq => by simp [heq, h₁] at hc, fun heq => by simp [heq, h₂] at hc⟩

theorem isOrdinary_of_isBlank (h : isBlank c = true) : IsOrdinary c :=
  isOrdinary_of_class (by decide) (by decide) h

theorem isOrdinary_of_isMacroChar (h : isMacroChar c = true) : IsOrdinary c :=
  isOrdinary_of_class (by decide) (by decide) h

/-- The lexemes of terms have no sign of a definition in them. -/
theorem Lexeme.isOrdinary_of_read {k : Lexeme} (hk : k ≠ .declare) (h : k.read s = some (w, r)) :
    ∀ c ∈ w, IsOrdinary c := by
  unfold Lexeme.read at h
  split at h
  case h_1 =>
    exact fun c hc => isOrdinary_of_class (by decide) (by decide) ((of_readRun h).1.2 c hc)
  case h_2 => exact fun c hc => isOrdinary_of_isMacroChar ((of_readRun h).1.2 c hc)
  case h_5 => exact absurd rfl hk
  case h_6 => exact absurd rfl hk
  case h_7 =>
    obtain ⟨rfl, -⟩ := Prod.mk.inj (Option.some.inj h)
    exact fun c hc => isOrdinary_of_isBlank (List.mem_takeWhile_imp hc)
  all_goals simp at h
  all_goals obtain ⟨rfl, -⟩ := h
  all_goals simp [IsOrdinary]

/-- Whether a text is another one behind ordinary characters. -/
def Consumes (s r : List Char) : Prop :=
  ∃ w, s = w ++ r ∧ ∀ c ∈ w, IsOrdinary c

theorem Consumes.trans (h : Consumes s r) (h' : Consumes r r') : Consumes s r' := by
  obtain ⟨w, rfl, hw⟩ := h
  obtain ⟨w', rfl, hw'⟩ := h'
  exact ⟨w ++ w', (List.append_assoc w w' r').symm,
    fun c hc => (List.mem_append.mp hc).elim (hw c) (hw' c)⟩

theorem consumes_dropBlank (s : List Char) : Consumes s (dropBlank s) := by
  obtain ⟨b, hb, hs⟩ := exists_blank_append s
  exact ⟨b, hs, fun c hc => isOrdinary_of_isBlank (hb c hc)⟩

theorem consumes_of_read {k : Lexeme} (hk : k ≠ .declare) (h : k.read s = some (w, r)) :
    Consumes s r :=
  ⟨w, (Lexeme.read_append h).symm, Lexeme.isOrdinary_of_read hk h⟩

/-- **No sign of a definition occurs in what is read.** -/
theorem Reads.consumes (h : Reads resolve part s t r) : Consumes s r := by
  induction h with
  | dots hw => exact (consumes_dropBlank _).trans (consumes_of_read (by decide) hw)
  | var hw => exact (consumes_dropBlank _).trans (consumes_of_read (by decide) hw)
  | ref hw _ => exact (consumes_dropBlank _).trans (consumes_of_read (by decide) hw)
  | abs hl hx hd _ ih =>
    exact (consumes_dropBlank _).trans ((consumes_of_read (by decide) hl).trans
      ((consumes_dropBlank _).trans ((consumes_of_read (by decide) hx).trans
        ((consumes_dropBlank _).trans ((consumes_of_read (by decide) hd).trans ih)))))
  | parens ho _ hc ih =>
    exact (consumes_dropBlank _).trans ((consumes_of_read (by decide) ho).trans
      (ih.trans (consumes_of_read (by decide) hc)))
  | expr _ _ ih iha => exact ih.trans iha
  | arg _ _ ih iha => exact ih.trans iha
  | done _ => exact consumes_dropBlank _

end Ordinary

/-! ### The two readings of the name -/

theorem declare_read_eq_some {s w r : List Char} (h : Lexeme.declare.read s = some (w, r)) :
    s = '≜' :: r ∨ s = ':' :: '=' :: r := by
  unfold Lexeme.read at h
  split at h <;> simp_all

/-- **A text with a header** is a name and the sign of a definition, with blanks before each. -/
theorem MacroTable.exists_of_readHeader {source n : String} {start : Nat}
    (h : readHeader source = .ok (n, start)) :
    ∃ b w b' r, (∀ c ∈ b, isBlank c = true) ∧ (w ≠ [] ∧ ∀ c ∈ w, isMacroChar c = true) ∧
      (∀ c ∈ b', isBlank c = true) ∧ n = String.ofList w ∧ source.toList.drop start = r ∧
      (source.toList = b ++ w ++ b' ++ '≜' :: r ∨
        source.toList = b ++ w ++ b' ++ ':' :: '=' :: r) := by
  rw [readHeader] at h
  split at h
  · cases h
  rename_i w r hw
  split at h
  · cases h
  rename_i d rest hd
  cases h
  obtain ⟨b, hb, hs⟩ := exists_blank_append source.toList
  obtain ⟨b', hb', hr⟩ := exists_blank_append r
  have hfront : source.toList = b ++ w ++ b' ++ dropBlank r := by
    rw [List.append_assoc, ← hr, List.append_assoc, Lexeme.read_append hw, ← hs]
  have hdrop : source.toList.drop (source.length - rest.length) = rest := by
    have hall : source.toList = (b ++ w ++ b' ++ d) ++ rest := by
      rw [List.append_assoc _ d, Lexeme.read_append hd, hfront]
    rw [← String.length_toList, hall, List.length_append, Nat.add_sub_cancel, List.drop_left]
  refine ⟨b, w, b', rest, hb, (of_readRun hw).1, hb', rfl, hdrop, ?_⟩
  rw [hfront]
  exact (declare_read_eq_some hd).imp (congrArg _) (congrArg _)

/-- **The name before the sign of a definition** is the one that the table reads, where a term
follows. -/
theorem Statement.definedName?_eq {resolve : String → Option Term} {text n : String}
    {start : Nat} {u : Term} (h : MacroTable.readHeader text = .ok (n, start))
    (hread : parseFrom resolve text start = .ok u) (kind : StatementKind) (line : String) :
    (Statement.mk kind text line).definedName? = some n := by
  obtain ⟨b, w, b', r, hb, ⟨hne, hw⟩, hb', rfl, hdrop, htext⟩ := MacroTable.exists_of_readHeader h
  obtain ⟨v, hv, hterm⟩ := (reads_of_exprAt (parseFrom_eq_ok_iff.mp hread)).consumes
  rw [hdrop, List.append_nil] at hv
  subst hv
  have hfront : ∀ c ∈ b ++ w ++ b', IsOrdinary c := by
    intro c hc
    rcases List.mem_append.mp hc with hc | hc
    · rcases List.mem_append.mp hc with hc | hc
      · exact isOrdinary_of_isBlank (hb c hc)
      · exact isOrdinary_of_isMacroChar (hw c hc)
    · exact isOrdinary_of_isBlank (hb' c hc)
  have hstripped : IsStripped w :=
    ⟨fun c hc => isBlank_of_isMacroChar (hw c (List.mem_of_mem_head? hc)),
      fun c hc => isBlank_of_isMacroChar (hw c (List.mem_reverse.mp (List.mem_of_mem_head? hc)))⟩
  have hname : stripChars (b ++ w ++ b') = w := stripChars_of_blanks hb hstripped hb'
  have hsign : "≜".toList = ['≜'] := rfl
  have hsign' : ":=".toList = [':', '='] := rfl
  rcases htext with htext | htext
  · have hoccurs := occursIn_of_append hsign (fun c hc => (hfront c hc).1) htext
    have hbefore := before_append_word hsign (fun c hc => (hfront c hc).1) r
    simp only [definedName?, declarators, List.find?_cons, hoccurs, Option.map_some, htext]
    exact congrArg (fun s => some (String.ofList s)) ((congrArg stripChars hbefore).trans hname)
  · have hnot : occursIn "≜" text = false := by
      refine occursIn_of_ne hsign fun c hc => ?_
      rw [htext, List.mem_append, List.mem_cons, List.mem_cons] at hc
      rcases hc with hc | rfl | rfl | hc
      · exact (hfront c hc).1
      · decide
      · decide
      · exact (hterm c hc).1
    have hoccurs := occursIn_of_append hsign' (fun c hc => (hfront c hc).2) htext
    have hbefore := before_append_word hsign' (fun c hc => (hfront c hc).2) r
    simp only [definedName?, declarators, List.find?_cons, hnot, hoccurs, Option.map_some, htext]
    exact congrArg (fun s => some (String.ofList s)) ((congrArg stripChars hbefore).trans hname)

/-- **A definition that was added is found** under the name before the sign of a definition. -/
theorem MacroTable.exists_get?_definedName? {t t' : MacroTable} (h : t.IsMade) {text n : String}
    {trace : Trace} (hdef : t.define text = (t', .ok (n, trace))) (kind : StatementKind)
    (line : String) :
    ∃ d, (Statement.mk kind text line).definedName? = some n ∧ t'.get? n = some d := by
  obtain ⟨u, hu⟩ := defines_of_define h.legible hdef
  obtain ⟨start, hheader, hread⟩ := hu.read
  obtain ⟨d, hd⟩ := exists_of_mem_names ((hu.mem_names n).mpr (Or.inr rfl))
  exact ⟨d, Statement.definedName?_eq hheader hread kind line, hd⟩

end LambdaTrace
