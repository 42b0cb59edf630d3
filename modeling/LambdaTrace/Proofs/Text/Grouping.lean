import LambdaTrace.Proofs.Text.Cut
import LambdaTrace.Statement

/-!
# Grouping lines

A line whose parentheses stay open goes on in the next one. While lines are grouped, the text
that is still open is all that matters of the lines before (`LambdaTrace.Grouping.Collects`): each
line is joined to it, and either completes a statement or is open in turn
(`LambdaTrace.Grouping.taken`). A line is cleaned before it is joined to the open text; as that is
clean already, it makes no difference if the two are joined first and then cleaned
(`LambdaTrace.Grouping.clean_join`).
-/

namespace LambdaTrace

namespace Grouping

variable {held text line : String}

/-! ### Clean texts -/

/-- **A text without a comment**, and without blanks at its ends. -/
structure IsClean (text : String) : Prop where
  stripped : IsStripped text.toList
  uncommented : cutAt? commentMark.toList text.toList = none

theorem commentMark_toList : commentMark.toList = [';', ';'] := by
  decide

theorem isClean_empty : IsClean "" := by
  refine ⟨⟨?_, ?_⟩, ?_⟩
  · exact fun c hc => absurd hc (by simp)
  · exact fun c hc => absurd hc (by simp)
  · decide

theorem IsClean.strip_eq (h : IsClean text) : strip text = text := by
  rw [strip, h.stripped.stripChars_eq, String.ofList_toList]

/-- What is stripped has a comment only if it had one before. -/
theorem isClean_strip (h : cutAt? commentMark.toList text.toList = none) :
    IsClean (strip text) := by
  obtain ⟨b, b', -, -, hs⟩ := exists_blanks text.toList
  rw [hs] at h
  have hpart := (cutAt?_eq_none_of_append (cutAt?_eq_none_of_append h).1).2
  refine ⟨?_, ?_⟩ <;> rw [strip, String.toList_ofList]
  · exact isStripped_stripChars _
  · exact hpart

theorem clean_eq_strip (line : String) :
    clean line = strip (String.ofList (before commentMark line.toList)) := by
  rw [clean, strip, String.toList_ofList]

theorem isClean_clean (line : String) : IsClean (clean line) := by
  rw [clean_eq_strip]
  refine isClean_strip ?_
  rw [String.toList_ofList]
  exact cutAt?_before commentMark_toList _

/-- The line that a text is joined to. -/
theorem toList_join (held line : String) :
    (held ++ " " ++ line).toList = held.toList ++ ' ' :: line.toList := by
  simp

/-- Clean texts that are joined have no comment across the space. -/
theorem isClean_join (hheld : IsClean held) (hline : IsClean line) :
    IsClean (strip (held ++ " " ++ line)) := by
  refine isClean_strip ?_
  rw [toList_join, commentMark_toList, cutAt?_append_cons (by decide)
    (commentMark_toList ▸ hheld.uncommented), ← commentMark_toList, hline.uncommented]
  rfl

/-- A blank is no part of the mark of a comment. -/
theorem notMem_commentMark {c : Char} (h : isBlank c = true) : c ∉ commentMark.toList := by
  rw [commentMark_toList]
  intro hc
  obtain rfl : c = ';' := by simpa using hc
  revert h
  decide

/-- Blanks at the ends of a line do not matter. -/
theorem clean_strip (line : String) : clean (strip line) = clean line := by
  obtain ⟨b, b', hb, hb', hs⟩ := exists_blanks line.toList
  have hfront : ∀ c ∈ b, c ≠ ';' :=
    fun c hc heq => notMem_commentMark (hb c hc) (by rw [heq, commentMark_toList]; simp)
  have hcut : before commentMark line.toList =
      b ++ before commentMark (stripChars line.toList ++ b') := by
    rw [← before_append_of_ne commentMark_toList hfront, ← List.append_assoc, ← hs]
  rw [clean, clean, strip, String.toList_ofList, hcut, stripChars_append_left hb]
  rcases before_append_or commentMark_toList (a := stripChars line.toList)
    fun c hc => notMem_commentMark (hb' c hc) with heq | heq
  · rw [heq]
  · rw [heq, stripChars_append_right hb']

/-- **Joining and cleaning.** A stripped line may be cleaned before it is joined to a clean text,
or after. -/
theorem clean_join_strip (hheld : IsClean held) (line : String) :
    clean (held ++ " " ++ strip line) = strip (held ++ " " ++ clean line) := by
  have hfront : StartsOutside isBlank (before commentMark (strip line).toList) := by
    refine StartsOutside.of_isPrefix ?_ (isPrefix_before commentMark _)
    rw [strip, String.toList_ofList]
    exact (isStripped_stripChars _).1
  obtain ⟨b, hb, hs⟩ := exists_append_blanks hfront
  have hline : before commentMark (strip line).toList = (clean line).toList ++ b := by
    rw [← clean_strip, clean, String.toList_ofList]
    exact hs
  calc clean (held ++ " " ++ strip line)
    _ = String.ofList (stripChars (held.toList ++ ' ' :: ((clean line).toList ++ b))) := by
      rw [clean, toList_join, before_append_cons commentMark_toList
        (notMem_commentMark (by decide)) hheld.uncommented, hline]
    _ = String.ofList (stripChars (held.toList ++ ' ' :: (clean line).toList)) := by
      rw [← List.cons_append, ← List.append_assoc, stripChars_append_right hb]
    _ = strip (held ++ " " ++ clean line) := by rw [strip, toList_join]

/-! ### Lines in turn -/

/-- The statement that a text completes, if it does, and the text that is open after it. -/
def ended (text : String) : Option String × String :=
  if goesOn text then (none, text) else (if text.isEmpty then none else some text, "")

/-- **What becomes of a line** that is joined to the text that is open. -/
def taken (held line : String) : Option String × String :=
  ended (strip (held ++ " " ++ clean line))

/-- Whether statements are complete: none is empty, and none goes on. -/
def AreComplete (done : List (String × Int)) : Prop :=
  ∀ p ∈ done, p.1 ≠ "" ∧ goesOn p.1 = false

/-- **How far lines have been grouped**: the statements that are complete, and the text that is
open, which is empty if none is. -/
inductive Collects (done : List (String × Int)) : Progress → String → Prop
  | closed (complete : AreComplete done) : Collects done ⟨done, false⟩ ""
  | opened {text : String} {number : Int} (complete : AreComplete done) (clean : IsClean text)
    (more : goesOn text = true) : Collects done ⟨done ++ [(text, number)], true⟩ text

theorem ne_empty_of_goesOn (h : goesOn text = true) : text ≠ "" := by
  rintro rfl
  revert h
  decide

theorem Collects.isClean {done : List (String × Int)} {p : Progress} (h : Collects done p held) :
    IsClean held := by
  cases h with
  | closed => exact isClean_empty
  | opened _ clean => exact clean

/-- The space between two texts is a blank. -/
theorem isBlank_of_mem_space : ∀ c ∈ [' '], isBlank c = true :=
  List.forall_mem_singleton.mpr (by decide)

/-- Nothing is open before the line. -/
theorem strip_join_empty (line : String) : strip ("" ++ " " ++ clean line) = clean line := by
  rw [strip, toList_join, String.toList_empty, List.nil_append, ← List.singleton_append,
    stripChars_append_left isBlank_of_mem_space, ← strip]
  exact (isClean_clean line).strip_eq

/-- A text that is open is not lost. -/
theorem strip_join_ne_empty (hheld : IsClean held) (hne : held ≠ "") (line : String) :
    strip (held ++ " " ++ line) ≠ "" := by
  obtain ⟨c, s, hs⟩ := List.exists_cons_of_ne_nil
    (show held.toList ≠ [] from fun h => hne (String.toList_eq_nil_iff.mp h))
  obtain ⟨b, b', hb, hb', hjoin⟩ := exists_blanks (held ++ " " ++ line).toList
  intro hempty
  have hnone : stripChars (held ++ " " ++ line).toList = [] := by
    rw [← String.toList_ofList (l := stripChars _), ← strip, hempty, String.toList_empty]
  rw [hnone, toList_join, hs, List.append_nil] at hjoin
  have hblank : isBlank c = true := by
    have hmem : c ∈ b ++ b' := hjoin ▸ List.mem_cons_self
    exact (List.mem_append.mp hmem).elim (hb c) (hb' c)
  have hinked : isBlank c = false := hheld.stripped.1 c (by rw [hs]; rfl)
  rw [hblank] at hinked
  cases hinked

/-- A clean text is put behind the complete statements. -/
theorem exists_collects_ended {done : List (String × Int)} (hdone : AreComplete done)
    (hclean : IsClean text) (number : Int) : ∃ done',
      done'.map (·.1) = done.map (·.1) ++ (ended text).1.toList ∧
      Collects done' ⟨if text.isEmpty then done else done ++ [(text, number)], goesOn text⟩
        (ended text).2 := by
  rw [ended]
  cases hmore : goesOn text with
  | true =>
    have hempty : text.isEmpty = false := by simpa using ne_empty_of_goesOn hmore
    rw [hempty]
    exact ⟨done, by simp, .opened hdone hclean hmore⟩
  | false =>
    cases hempty : text.isEmpty with
    | true => exact ⟨done, by simp, .closed hdone⟩
    | false =>
      refine ⟨done ++ [(text, number)], by simp, .closed fun p hp => ?_⟩
      rcases List.mem_append.mp hp with hp | hp
      · exact hdone p hp
      · obtain rfl := List.mem_singleton.mp hp
        exact ⟨by simpa using hempty, hmore⟩

/-- **A line is grouped with the ones before.** -/
theorem Collects.exists_add {done : List (String × Int)} {p : Progress}
    (h : Collects done p held) (line : String) (number : Int) : ∃ done',
      done'.map (·.1) = done.map (·.1) ++ (taken held line).1.toList ∧
      Collects done' (add p line number).2 (taken held line).2 := by
  rw [taken]
  cases h with
  | closed hdone =>
    rw [strip_join_empty]
    exact exists_collects_ended hdone (isClean_clean line) number
  | @opened _ first hdone hclean hmore =>
    have hjoined := isClean_join hclean (isClean_clean line)
    have hempty : (strip (held ++ " " ++ clean line)).isEmpty = false := by
      simpa using strip_join_ne_empty hclean (ne_empty_of_goesOn hmore) (clean line)
    have hadd : (add ⟨done ++ [(held, first)], true⟩ line number).2 =
        ⟨done ++ [(strip (held ++ " " ++ clean line), first)],
          goesOn (strip (held ++ " " ++ clean line))⟩ := by
      simp [add]
    have hcollects := exists_collects_ended hdone hjoined first
    rw [hempty] at hcollects
    rw [hadd]
    exact hcollects

/-- A blank line leaves the text that is open. -/
theorem Collects.taken_of_blank {done : List (String × Int)} {p : Progress}
    (h : Collects done p held) (hblank : strip line = "") : taken held line = (none, held) := by
  have hclean : clean line = "" := by
    rw [← clean_strip, hblank]
    decide
  have hjoin : strip (held ++ " " ++ "") = held := by
    rw [strip, toList_join, String.toList_empty, stripChars_append_right isBlank_of_mem_space,
      ← strip]
    exact h.isClean.strip_eq
  rw [taken, hclean, hjoin]
  cases h with
  | closed => decide
  | opened _ _ hmore => rw [ended, if_pos hmore]

theorem Collects.exists_addAll {done : List (String × Int)} {p : Progress}
    (h : Collects done p held) (number : Int) (lines : List String) :
    ∃ done' held', Collects done' (addAll p number lines) held' := by
  induction lines generalizing done p held number with
  | nil => exact ⟨done, held, h⟩
  | cons line lines ih =>
    obtain ⟨done', -, h'⟩ := h.exists_add line number
    exact ih h' (number + 1)

/-- No statement collected is empty. -/
theorem Collects.ne_empty {done : List (String × Int)} {p : Progress} (h : Collects done p held) :
    ∀ x ∈ p.statements, x.1 ≠ "" := by
  cases h with
  | closed hdone => exact fun x hx => (hdone x hx).1
  | opened hdone _ hmore =>
    intro x hx
    rcases List.mem_append.mp hx with hx | hx
    · exact (hdone x hx).1
    · exact List.mem_singleton.mp hx ▸ ne_empty_of_goesOn hmore

/-- The text that is open is the last one, if that goes on. -/
theorem Collects.texts_eq {done : List (String × Int)} {p : Progress} (h : Collects done p held) :
    done.map (·.1) = if (p.statements.map (·.1)).getLast?.any goesOn then
      (p.statements.map (·.1)).dropLast else p.statements.map (·.1) := by
  cases h with
  | closed hdone =>
    have hlast : (done.map (·.1)).getLast?.any goesOn = false := by
      rw [Option.any_eq_false]
      intro text htext
      obtain ⟨x, hx, rfl⟩ := List.mem_map.mp (List.mem_of_getLast? htext)
      simp [(hdone x hx).2]
    dsimp only
    rw [hlast]
    rfl
  | opened _ _ hmore => simp [hmore]

/-- **No statement of a file is empty.** -/
theorem ne_empty_of_mem_statements {lines : List String} {x : String × Int}
    (h : x ∈ statements lines) : x.1 ≠ "" := by
  have hnone : AreComplete [] := by simp [AreComplete]
  obtain ⟨done, held, hcollects⟩ := (Collects.closed hnone).exists_addAll 1 lines
  exact hcollects.ne_empty x h

end Grouping

end LambdaTrace
