import LambdaTrace.Proofs.Reading.Words
import LambdaTrace.Text.Find

/-!
# Cutting texts

Where a text is cut at the first occurrence of a word, and what is left of it without the blanks
at its ends. A word can only begin with its first character, and none that holds no blank lies
across one: that is all that has to be known to cut a text that is put together from parts.
-/

namespace LambdaTrace

/-! ### The first occurrence of a word -/

section Cut

variable {c h : Char} {word a s : List Char} {p q : List Char}

theorem cutAt?_cons_of_not_prefix (hnot : word.isPrefixOf (c :: s) = false) :
    cutAt? word (c :: s) = (cutAt? word s).map fun (p, q) => (c :: p, q) := by
  rw [cutAt?, hnot]
  rfl

/-- A word begins with its first character. -/
theorem cutAt?_append_of_ne (ha : ∀ c ∈ a, c ≠ h) (s : List Char) :
    cutAt? (h :: word) (a ++ s) = (cutAt? (h :: word) s).map fun (p, q) => (a ++ p, q) := by
  induction a with
  | nil =>
    rw [List.nil_append]
    cases cutAt? (h :: word) s <;> rfl
  | cons c a ih =>
    have hnot : (h :: word).isPrefixOf (c :: (a ++ s)) = false := by
      rw [List.isPrefixOf, beq_false_of_ne (ha c List.mem_cons_self).symm, Bool.false_and]
    rw [List.cons_append, cutAt?_cons_of_not_prefix hnot,
      ih fun d hd => ha d (List.mem_cons_of_mem _ hd), Option.map_map]
    rfl

theorem cutAt?_eq_none_of_ne (ha : ∀ c ∈ a, c ≠ h) : cutAt? (h :: word) a = none := by
  rw [← List.append_nil a, cutAt?_append_of_ne ha]
  rfl

theorem cutAt?_word_append (word s : List Char) : cutAt? word (word ++ s) = some ([], s) := by
  cases word with
  | nil => cases s <;> rfl
  | cons h word =>
    have hpre : (h :: word).isPrefixOf (h :: (word ++ s)) = true := by
      rw [List.isPrefixOf_iff_prefix]
      exact List.prefix_append (h :: word) s
    rw [List.cons_append, cutAt?, if_pos hpre, ← List.cons_append, List.drop_left]

/-- The parts before and after a word and the word make up the text. -/
theorem append_of_cutAt? (hcut : cutAt? word a = some (p, q)) : p ++ word ++ q = a := by
  induction a generalizing p with
  | nil =>
    rw [cutAt?] at hcut
    split at hcut
    · rename_i hpre
      cases hcut
      simpa using hpre
    · cases hcut
  | cons c a ih =>
    rw [cutAt?] at hcut
    split at hcut
    · rename_i hpre
      cases hcut
      obtain ⟨t, ht⟩ := List.isPrefixOf_iff_prefix.mp hpre
      rw [← ht, List.drop_left, List.nil_append]
    · obtain ⟨⟨p', q'⟩, hcut', hpq⟩ := Option.map_eq_some_iff.mp hcut
      cases hpq
      rw [List.cons_append, List.cons_append, ih hcut']

/-- What is cut stays cut when the text goes on. -/
theorem cutAt?_append_of_eq_some (hcut : cutAt? word a = some (p, q)) (s : List Char) :
    cutAt? word (a ++ s) = some (p, q ++ s) := by
  induction a generalizing p with
  | nil =>
    have happ := append_of_cutAt? hcut
    obtain ⟨rfl, rfl, rfl⟩ : p = [] ∧ word = [] ∧ q = [] := by simpa using happ
    exact cutAt?_word_append [] s
  | cons c a ih =>
    rw [cutAt?] at hcut
    split at hcut
    · rename_i hpre
      cases hcut
      obtain ⟨t, ht⟩ := List.isPrefixOf_iff_prefix.mp hpre
      rw [← ht, List.append_assoc, cutAt?_word_append, List.drop_left]
    · rename_i hnot
      obtain ⟨⟨p', q'⟩, hcut', hpq⟩ := Option.map_eq_some_iff.mp hcut
      cases hpq
      -- the word that is found later on leaves no room for one across the end
      have hlength : word.length ≤ (c :: a).length := by
        have happ := congrArg List.length (append_of_cutAt? hcut')
        simp only [List.length_append, List.length_cons] at happ ⊢
        omega
      have hnot' : word.isPrefixOf (c :: (a ++ s)) = false := by
        rw [Bool.eq_false_iff, ne_eq, List.isPrefixOf_iff_prefix]
        intro hpre
        exact hnot (List.isPrefixOf_iff_prefix.mpr
          (List.prefix_of_prefix_length_le hpre (List.prefix_append (c :: a) s) hlength))
      rw [List.cons_append, cutAt?_cons_of_not_prefix hnot', ih hcut']
      rfl

/-- A text without the word has no part with it. -/
theorem cutAt?_eq_none_of_append (hcut : cutAt? word (a ++ s) = none) :
    cutAt? word a = none ∧ cutAt? word s = none := by
  constructor
  · cases ha : cutAt? word a with
    | none => rfl
    | some parts =>
      rw [cutAt?_append_of_eq_some ha s] at hcut
      cases hcut
  · induction a with
    | nil => exact hcut
    | cons c a ih =>
      rw [List.cons_append, cutAt?] at hcut
      split at hcut
      · cases hcut
      · exact ih (Option.map_eq_none_iff.mp hcut)

/-- A word lies before or after a character that it does not have. -/
theorem cutAt?_append_cons (hc : c ∉ h :: word) (ha : cutAt? (h :: word) a = none)
    (s : List Char) : cutAt? (h :: word) (a ++ c :: s) =
      (cutAt? (h :: word) s).map fun (p, q) => (a ++ c :: p, q) := by
  induction a with
  | nil =>
    exact cutAt?_append_of_ne (a := [c]) (fun d hd heq => hc (by simp_all)) s
  | cons d a ih =>
    rw [cutAt?] at ha
    split at ha
    · cases ha
    rename_i hnot
    have hnot' : (h :: word).isPrefixOf (d :: (a ++ c :: s)) = false := by
      rw [Bool.eq_false_iff, ne_eq, List.isPrefixOf_iff_prefix]
      intro hpre
      rcases Nat.lt_or_ge (d :: a).length (h :: word).length with hlt | hle
      · have hacross : (d :: a) ++ [c] <+: h :: word :=
          List.prefix_of_prefix_length_le ⟨s, by simp⟩ hpre
            (by rw [List.length_append]; exact hlt)
        exact hc (hacross.subset (by simp))
      · exact hnot (List.isPrefixOf_iff_prefix.mpr
          (List.prefix_of_prefix_length_le hpre (List.prefix_append (d :: a) (c :: s)) hle))
    rw [List.cons_append, cutAt?_cons_of_not_prefix hnot', ih (by simpa using ha), Option.map_map]
    rfl

end Cut

/-! ### The part before a word -/

section Before

variable {word : String} {h : Char} {w a s : List Char} {c : Char}

theorem before_append_of_ne (hword : word.toList = h :: w) (ha : ∀ c ∈ a, c ≠ h)
    (s : List Char) : before word (a ++ s) = a ++ before word s := by
  rw [before, before, hword, cutAt?_append_of_ne ha]
  cases cutAt? (h :: w) s <;> rfl

theorem before_append_word (hword : word.toList = h :: w) (ha : ∀ c ∈ a, c ≠ h) (s : List Char) :
    before word (a ++ (h :: w ++ s)) = a := by
  rw [before_append_of_ne hword ha, before, hword, cutAt?_word_append, List.append_nil]

theorem occursIn_of_append {text : String} (hword : word.toList = h :: w) (ha : ∀ c ∈ a, c ≠ h)
    (htext : text.toList = a ++ (h :: w ++ s)) : occursIn word text = true := by
  rw [occursIn, hword, htext, cutAt?_append_of_ne ha, cutAt?_word_append]
  rfl

theorem occursIn_of_ne {text : String} (hword : word.toList = h :: w)
    (ha : ∀ c ∈ text.toList, c ≠ h) : occursIn word text = false := by
  rw [occursIn, hword, cutAt?_eq_none_of_ne ha]
  rfl

/-- A text without the word is not cut, and what follows it after another character is. -/
theorem before_append_cons (hword : word.toList = h :: w) (hc : c ∉ word.toList)
    (ha : cutAt? word.toList a = none) (s : List Char) :
    before word (a ++ c :: s) = a ++ c :: before word s := by
  rw [hword] at hc ha
  rw [before, before, hword, cutAt?_append_cons hc ha]
  cases cutAt? (h :: w) s <;> rfl

/-- The part before the first occurrence has none. -/
theorem cutAt?_before (hword : word.toList = h :: w) (s : List Char) :
    cutAt? word.toList (before word s) = none := by
  rw [before, hword]
  cases hcut : cutAt? (h :: w) s with
  | none => exact hcut
  | some parts =>
    obtain ⟨p, q⟩ := parts
    cases hagain : cutAt? (h :: w) p with
    | none => rfl
    | some parts' =>
      obtain ⟨p', q'⟩ := parts'
      -- the first occurrence in the part would be the first one in the text
      have hwhole := cutAt?_append_of_eq_some hagain (h :: w ++ q)
      rw [← List.append_assoc, append_of_cutAt? hcut, hcut] at hwhole
      obtain rfl : p = p' := congrArg Prod.fst (Option.some.inj hwhole)
      have hlength := congrArg List.length (append_of_cutAt? hagain)
      simp only [List.length_append, List.length_cons] at hlength
      omega

/-- What is before a word stands in front. -/
theorem isPrefix_before (word : String) (s : List Char) : before word s <+: s := by
  rw [before]
  cases hcut : cutAt? word.toList s with
  | none => exact List.prefix_rfl
  | some parts =>
    have happ := append_of_cutAt? hcut
    rw [List.append_assoc] at happ
    exact ⟨_, happ⟩

/-- What shares no character with a word does not matter behind a text with the word. -/
theorem before_append_or (hword : word.toList = h :: w) (hs : ∀ c ∈ s, c ∉ word.toList) :
    before word (a ++ s) = before word a ∨ before word (a ++ s) = before word a ++ s := by
  cases hcut : cutAt? word.toList a with
  | some parts =>
    left
    rw [before, before, hcut, cutAt?_append_of_eq_some hcut s]
  | none =>
    right
    have hself : ∀ t : List Char, (∀ c ∈ t, c ∉ word.toList) → before word t = t := by
      intro t ht
      have hne : ∀ c ∈ t, c ≠ h := fun c hc heq => ht c hc (by simp [hword, heq])
      rw [before, hword, cutAt?_eq_none_of_ne hne]
    have ha : before word a = a := by rw [before, hcut]
    rw [ha]
    cases s with
    | nil => rw [List.append_nil, ha]
    | cons c s =>
      rw [before_append_cons hword (hs c List.mem_cons_self) hcut,
        hself s fun d hd => hs d (List.mem_cons_of_mem _ hd)]

end Before

/-! ### Blanks at the ends -/

section Strip

variable {b s : List Char}

/-- A text without blanks at its ends. -/
def IsStripped (s : List Char) : Prop :=
  StartsOutside isBlank s ∧ StartsOutside isBlank s.reverse

theorem dropBlank_append_of_blank (hb : ∀ c ∈ b, isBlank c = true) (s : List Char) :
    dropBlank (b ++ s) = dropBlank s :=
  List.dropWhile_append_of_pos hb

theorem dropBlank_eq_nil (hb : ∀ c ∈ b, isBlank c = true) : dropBlank b = [] := by
  rw [← List.append_nil b, dropBlank_append_of_blank hb]
  rfl

theorem exists_blank_append (s : List Char) :
    ∃ b, (∀ c ∈ b, isBlank c = true) ∧ s = b ++ dropBlank s :=
  ⟨s.takeWhile isBlank, fun _ hc => List.mem_takeWhile_imp hc,
    (takeWhile_append_dropWhile_eq isBlank s).symm⟩

theorem startsOutside_dropBlank (s : List Char) : StartsOutside isBlank (dropBlank s) :=
  startsOutside_dropWhile isBlank s

theorem IsStripped.stripChars_eq (h : IsStripped s) : stripChars s = s := by
  rw [stripChars, dropBlank_of_startsOutside h.1, dropBlank_of_startsOutside h.2,
    List.reverse_reverse]

theorem isStripped_stripChars (s : List Char) : IsStripped (stripChars s) := by
  refine ⟨fun c hc => startsOutside_dropBlank s c ?_, ?_⟩
  · obtain ⟨b, -, hb⟩ := exists_blank_append (dropBlank s).reverse
    rw [List.reverse_eq_iff, List.reverse_append] at hb
    rw [stripChars, Option.mem_def] at hc
    rw [hb, List.head?_append, hc]
    rfl
  · rw [stripChars, List.reverse_reverse]
    exact startsOutside_dropBlank _

/-- **What is stripped off a text** are blanks. -/
theorem exists_blanks (s : List Char) : ∃ b b', (∀ c ∈ b, isBlank c = true) ∧
    (∀ c ∈ b', isBlank c = true) ∧ s = b ++ stripChars s ++ b' := by
  obtain ⟨b, hb, hs⟩ := exists_blank_append s
  obtain ⟨b', hb', hs'⟩ := exists_blank_append (dropBlank s).reverse
  rw [List.reverse_eq_iff, List.reverse_append] at hs'
  refine ⟨b, b'.reverse, hb, fun c hc => hb' c (List.mem_reverse.mp hc), ?_⟩
  rw [List.append_assoc, stripChars, ← hs', ← hs]

/-- **Blanks around a stripped text are stripped off.** -/
theorem stripChars_of_blanks {w b' : List Char} (hb : ∀ c ∈ b, isBlank c = true)
    (hw : IsStripped w) (hb' : ∀ c ∈ b', isBlank c = true) : stripChars (b ++ w ++ b') = w := by
  have hrev : ∀ c ∈ b'.reverse, isBlank c = true := fun c hc => hb' c (List.mem_reverse.mp hc)
  rw [List.append_assoc, stripChars, dropBlank_append_of_blank hb]
  cases w with
  | nil =>
    rw [List.nil_append, dropBlank_eq_nil hb']
    rfl
  | cons c w =>
    have hfront : dropBlank (c :: w ++ b') = c :: w ++ b' :=
      dropBlank_of_startsOutside (startsOutside_cons (hw.1 c rfl) _)
    rw [hfront, List.reverse_append, dropBlank_append_of_blank hrev,
      dropBlank_of_startsOutside hw.2, List.reverse_reverse]

theorem stripChars_append_left (hb : ∀ c ∈ b, isBlank c = true) (s : List Char) :
    stripChars (b ++ s) = stripChars s := by
  rw [stripChars, stripChars, dropBlank_append_of_blank hb]

theorem stripChars_append_right (hb : ∀ c ∈ b, isBlank c = true) (s : List Char) :
    stripChars (s ++ b) = stripChars s := by
  obtain ⟨a, a', ha, ha', hs⟩ := exists_blanks s
  have hboth : ∀ c ∈ a' ++ b, isBlank c = true :=
    fun c hc => (List.mem_append.mp hc).elim (ha' c) (hb c)
  rw [hs, List.append_assoc, stripChars_of_blanks ha (isStripped_stripChars s) hboth, ← hs]

theorem StartsOutside.of_isPrefix {p : Char → Bool} {r : List Char} (h : StartsOutside p s)
    (hr : r <+: s) : StartsOutside p r := by
  obtain ⟨t, rfl⟩ := hr
  cases r with
  | nil => exact fun c hc => absurd hc (by simp)
  | cons c r => exact startsOutside_cons (h c rfl) r

/-- Of a text with no blank in front, only blanks at the end are stripped off. -/
theorem exists_append_blanks (h : StartsOutside isBlank s) :
    ∃ b, (∀ c ∈ b, isBlank c = true) ∧ s = stripChars s ++ b := by
  obtain ⟨b, hb, hs⟩ := exists_blank_append s.reverse
  rw [List.reverse_eq_iff, List.reverse_append] at hs
  refine ⟨b.reverse, fun c hc => hb c (List.mem_reverse.mp hc), ?_⟩
  rw [stripChars, dropBlank_of_startsOutside h, ← hs]

end Strip

end LambdaTrace
