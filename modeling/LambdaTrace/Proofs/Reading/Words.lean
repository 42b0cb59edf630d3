import LambdaTrace.Source.Lexeme
import Mathlib.Data.List.TakeWhile

/-!
# What a text starts with

The lexemes that a term can start with are told from each other by the first
character of the text, and a blank is none of these. So it is the first character
that decides which rule of the grammar applies, and the order in which the rules are
tried does not matter. A name ends where the class of its characters does:
`LambdaTrace.readRun_append_of_all` reads back a name that is followed by a character
of another class, or by nothing.
-/

namespace LambdaTrace

/-! ### Classes of characters -/

section Classes

variable {c : Char}

theorem isVarChar_iff : isVarChar c = true ↔
    (97 ≤ c.toNat ∧ c.toNat ≤ 122) ∨ 48 ≤ c.toNat ∧ c.toNat ≤ 57 := by
  simp only [isVarChar, Bool.or_eq_true, Bool.and_eq_true, decide_eq_true_eq, Char.le_def,
    UInt32.le_iff_toNat_le]
  rfl

theorem isMacroChar_iff : isMacroChar c = true ↔ 65 ≤ c.toNat ∧ c.toNat ≤ 90 := by
  simp only [isMacroChar, Bool.and_eq_true, decide_eq_true_eq, Char.le_def,
    UInt32.le_iff_toNat_le]
  rfl

theorem isVarChar_of_isMacroChar (h : isMacroChar c = true) : isVarChar c = false := by
  rw [isMacroChar_iff] at h
  rw [Bool.eq_false_iff, ne_eq, isVarChar_iff]
  omega

theorem isBlank_of_isVarChar (h : isVarChar c = true) : isBlank c = false := by
  rw [isVarChar_iff] at h
  simp only [isBlank, Bool.or_eq_false_iff, Bool.and_eq_false_iff, decide_eq_false_iff_not,
    beq_eq_false_iff_ne]
  omega

theorem isBlank_of_isMacroChar (h : isMacroChar c = true) : isBlank c = false := by
  rw [isMacroChar_iff] at h
  simp only [isBlank, Bool.or_eq_false_iff, Bool.and_eq_false_iff, decide_eq_false_iff_not,
    beq_eq_false_iff_ne]
  omega

end Classes

/-! ### Runs -/

/-- A text that starts with no character of a class, also one that is empty. -/
def StartsOutside (p : Char → Bool) (rest : List Char) : Prop :=
  ∀ c ∈ rest.head?, p c = false

section Runs

variable {p : Char → Bool} {w rest s r : List Char}

theorem startsOutside_cons {c : Char} (h : p c = false) (s : List Char) :
    StartsOutside p (c :: s) := by
  intro d hd
  rw [← Option.some_inj.mp hd]
  exact h

theorem takeWhile_of_startsOutside (h : StartsOutside p rest) : rest.takeWhile p = [] := by
  cases rest with
  | nil => rfl
  | cons c rest => rw [List.takeWhile_cons, if_neg (by simp [h c rfl])]

theorem dropWhile_of_startsOutside (h : StartsOutside p rest) : rest.dropWhile p = rest := by
  cases rest with
  | nil => rfl
  | cons c rest => rw [List.dropWhile_cons, if_neg (by simp [h c rfl])]

/-- A run ends where no more of its characters follow. -/
theorem startsOutside_dropWhile (p : Char → Bool) (s : List Char) :
    StartsOutside p (s.dropWhile p) := by
  intro c hc
  have hhead := List.head?_dropWhile_not p s
  rw [Option.mem_def.mp hc] at hhead
  simpa using hhead

theorem startsOutside_of_readRun (h : readRun p s = some (w, r)) : StartsOutside p r := by
  unfold readRun at h
  split at h
  · cases h
  · cases h
    exact startsOutside_dropWhile p s

/-- **A word of a class is read back** where the text goes on with another class. -/
theorem readRun_append_of_all (hne : w ≠ []) (hw : ∀ c ∈ w, p c = true) (h : StartsOutside p rest) :
    readRun p (w ++ rest) = some (w, rest) := by
  obtain ⟨c, cs, rfl⟩ := List.exists_cons_of_ne_nil hne
  rw [readRun, List.takeWhile_append_of_pos hw, List.dropWhile_append_of_pos hw,
    takeWhile_of_startsOutside h, dropWhile_of_startsOutside h, List.append_nil]

theorem readRun_of_startsOutside (h : StartsOutside p s) : readRun p s = none := by
  rw [readRun, takeWhile_of_startsOutside h]

/-- What is read is a word of the class, and it stands in front. -/
theorem of_readRun (h : readRun p s = some (w, r)) :
    (w ≠ [] ∧ ∀ c ∈ w, p c = true) ∧ ∃ c cs, s = c :: cs ∧ p c = true := by
  have hne : w ≠ [] := readRun_ne_nil h
  have happ : w ++ r = s := readRun_append h
  have hw : ∀ c ∈ w, p c = true := by
    unfold readRun at h
    split at h
    · exact absurd h (by simp)
    · rename_i c cs htake
      obtain ⟨rfl, -⟩ := by simpa using h
      rw [← htake]
      exact fun c hc => List.mem_takeWhile_imp hc
  obtain ⟨c, cs, rfl⟩ := List.exists_cons_of_ne_nil hne
  exact ⟨⟨hne, hw⟩, c, cs ++ r, happ.symm, hw c List.mem_cons_self⟩

/-- A text that starts with no blank has none to drop. -/
theorem dropBlank_of_startsOutside (h : StartsOutside isBlank s) : dropBlank s = s :=
  dropWhile_of_startsOutside h

end Runs

end LambdaTrace
