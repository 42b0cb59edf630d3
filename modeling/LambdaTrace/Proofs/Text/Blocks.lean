import LambdaTrace.Proofs.Text.Grouping

/-!
# No line is lost

The statements of a file are its lines, cut into blocks (`LambdaTrace.Grouping.Divides`). A block
begins with a line that is not blank and goes on while its text is open; between two blocks, and
before the first, there are blank lines only. The text of a statement is that of its block
(`LambdaTrace.Grouping.joined`), and its number is that of the line its block begins with.

So the lines are followed from the first to the last with one of two states in hand: either the
last block is complete, and the next line that is not blank begins a new one, or it is open
(`LambdaTrace.Grouping.IsOpen`), and the next line belongs to it, blank or not. The two are
followed together (`LambdaTrace.Grouping.exists_blocks`), since each line may lead from one to
the other.
-/

namespace LambdaTrace

namespace Grouping

variable {line : String} {lines held : List String} {n number : Int}
  {blocks : List (Int × List String)}

/-! ### The text of a block -/

/-- The clean texts of lines, but for those that are empty. -/
def inked (lines : List String) : List String :=
  (lines.map clean).filter (· ≠ "")

/-- **The text of a block of lines**: their clean texts, without the empty ones, with single spaces
between them. -/
def joined (lines : List String) : String :=
  " ".intercalate (inked lines)

theorem inked_append (lines lines' : List String) :
    inked (lines ++ lines') = inked lines ++ inked lines' := by
  rw [inked, List.map_append, List.filter_append, ← inked, ← inked]

theorem inked_of_blank (h : clean line = "") : inked [line] = [] := by
  simp [inked, h]

theorem inked_of_ne_empty (h : clean line ≠ "") : inked [line] = [clean line] := by
  simp [inked, h]

theorem inked_cons (line : String) (lines : List String) :
    inked (line :: lines) = inked [line] ++ inked lines :=
  inked_append [line] lines

theorem inked_cons_ne_nil (h : clean line ≠ "") (lines : List String) :
    inked (line :: lines) ≠ [] := by
  rw [inked_cons, inked_of_ne_empty h]
  exact List.cons_ne_nil _ _

theorem joined_singleton (h : clean line ≠ "") : joined [line] = clean line := by
  rw [joined, inked_of_ne_empty h, String.intercalate_singleton]

/-- Rows of texts may be joined one by one before they are joined to each other. -/
theorem intercalate_flatten (s : String) {rows : List (List String)} (h : ∀ row ∈ rows, row ≠ []) :
    s.intercalate rows.flatten = s.intercalate (rows.map s.intercalate) := by
  induction rows with
  | nil => rfl
  | cons row rows ih =>
    obtain ⟨hrow, hrows⟩ := List.forall_mem_cons.mp h
    by_cases hnil : rows = []
    · rw [hnil]
      simp
    · have hne : rows.flatten ≠ [] := by
        obtain ⟨row', rest, rfl⟩ := List.exists_cons_of_ne_nil hnil
        simp [(List.forall_mem_cons.mp hrows).1]
      rw [List.flatten_cons, String.intercalate_append_of_ne_nil hrow hne, ih hrows,
        List.map_cons, String.intercalate_cons_of_ne_nil (by simpa using hnil)]

/-! ### Lines in blocks -/

/-- **A division of lines into blocks**, each with the number of its first line, the lines being
numbered from `n` on. A block begins with a line that is not blank, and every line that is not
blank is in a block. -/
inductive Divides : Int → List String → List (Int × List String) → Prop
  | none (n : Int) : Divides n [] []
  /-- A blank line between the blocks. -/
  | blank {n : Int} {line : String} {lines : List String} {blocks : List (Int × List String)} :
    clean line = "" → Divides (n + 1) lines blocks → Divides n (line :: lines) blocks
  /-- A block, and the lines after it. -/
  | block {n : Int} {line : String} {rest lines : List String}
    {blocks : List (Int × List String)} :
    clean line ≠ "" → Divides (n + (line :: rest).length) lines blocks →
      Divides n (line :: rest ++ lines) ((n, line :: rest) :: blocks)

namespace Divides

/-- Nothing that is written stands outside of the blocks. -/
theorem inked_eq (h : Divides n lines blocks) :
    inked lines = (blocks.map fun b => inked b.2).flatten := by
  induction h with
  | none n => rfl
  | blank hblank _ ih => rw [inked_cons, inked_of_blank hblank, List.nil_append, ih]
  | block _ _ ih => rw [inked_append, ih, List.map_cons, List.flatten_cons]

theorem inked_ne_nil (h : Divides n lines blocks) : ∀ b ∈ blocks, inked b.2 ≠ [] := by
  induction h with
  | none n => exact fun b hb => absurd hb List.not_mem_nil
  | blank _ _ ih => exact ih
  | block hline _ ih =>
    intro b hb
    rcases List.mem_cons.mp hb with rfl | hb
    · exact inked_cons_ne_nil hline _
    · exact ih b hb

/-- **The texts of the blocks make up the text of the lines.** -/
theorem intercalate_joined (h : Divides n lines blocks) :
    " ".intercalate (blocks.map fun b => joined b.2) = joined lines := by
  have hrows : ∀ row ∈ blocks.map fun b => inked b.2, row ≠ [] := by
    intro row hrow
    obtain ⟨b, hb, rfl⟩ := List.mem_map.mp hrow
    exact h.inked_ne_nil b hb
  rw [joined, h.inked_eq, intercalate_flatten " " hrows, List.map_map]
  rfl

theorem le (h : Divides n lines blocks) : ∀ b ∈ blocks, n ≤ b.1 := by
  induction h with
  | none n => exact fun b hb => absurd hb List.not_mem_nil
  | blank _ _ ih =>
    intro b hb
    have := ih b hb
    omega
  | @block n _ _ _ _ _ _ ih =>
    intro b hb
    rcases List.mem_cons.mp hb with rfl | hb
    · exact Int.le_refl n
    · have := ih b hb
      omega

/-- Blocks are numbered upwards. -/
theorem pairwise_lt (h : Divides n lines blocks) : (blocks.map (·.1)).Pairwise (· < ·) := by
  induction h with
  | none n => exact .nil
  | blank _ _ ih => exact ih
  | block _ hlines ih =>
    refine List.pairwise_cons.mpr ⟨fun m hm => ?_, ih⟩
    obtain ⟨b, hb, rfl⟩ := List.mem_map.mp hm
    have hle := hlines.le b hb
    simp only [List.length_cons] at hle ⊢
    omega

/-- **Where a block stands**: its number is that of its first line, which is not blank. -/
theorem exists_append (h : Divides n lines blocks) : ∀ b ∈ blocks, ∃ front line rest back,
    lines = front ++ line :: rest ++ back ∧ b = (n + front.length, line :: rest) ∧
      clean line ≠ "" := by
  induction h with
  | none n => exact fun b hb => absurd hb List.not_mem_nil
  | @blank n line lines _ _ _ ih =>
    intro b hb
    obtain ⟨front, first, rest, back, rfl, rfl, hfirst⟩ := ih b hb
    refine ⟨line :: front, first, rest, back, rfl, Prod.ext ?_ rfl, hfirst⟩
    simp only [List.length_cons]
    omega
  | @block n line rest lines _ hline _ ih =>
    intro b hb
    rcases List.mem_cons.mp hb with rfl | hb
    · exact ⟨[], line, rest, lines, rfl, by simp, hline⟩
    · obtain ⟨front, first, rest', back, rfl, rfl, hfirst⟩ := ih b hb
      refine ⟨line :: rest ++ front, first, rest', back, ?_, Prod.ext ?_ rfl, hfirst⟩
      · rw [List.append_assoc, List.append_assoc, List.append_assoc]
      · rw [List.length_append]
        omega

end Divides

/-! ### Open blocks -/

/-- Whether a block goes on after each of its lines but the last. -/
def StaysOpen (block : List String) : Prop :=
  ∀ k, 0 < k → k < block.length → goesOn (joined (block.take k)) = true

/-- **An open block**: it begins with a line that is not blank, and goes on after each of its
lines. -/
structure IsOpen (block : List String) : Prop where
  first : ∃ line rest, block = line :: rest ∧ clean line ≠ ""
  isClean : IsClean (joined block)
  stays : StaysOpen block
  more : goesOn (joined block) = true

/-- A text is joined to another one without a blank too many. -/
theorem isStripped_append {a b c : List Char} (ha : IsStripped a) (hne : a ≠ [])
    (hc : IsStripped c) (hne' : c ≠ []) : IsStripped (a ++ b ++ c) := by
  obtain ⟨d, a, rfl⟩ := List.exists_cons_of_ne_nil hne
  obtain ⟨e, c', hrev⟩ := List.exists_cons_of_ne_nil (mt List.reverse_eq_nil_iff.mp hne')
  refine ⟨startsOutside_cons (ha.1 d rfl) _, ?_⟩
  rw [List.reverse_append, hrev]
  exact startsOutside_cons (hc.2 e (by rw [hrev]; rfl)) _

/-- A clean text that is not empty, as a text for joining. -/
theorem IsClean.toList_ne_nil {text : String} (hne : text ≠ "") : text.toList ≠ [] :=
  fun h => hne (String.toList_eq_nil_iff.mp h)

/-- **A line that is joined to an open block** belongs to it. -/
theorem IsOpen.strip_join (h : IsOpen held) (line : String) :
    strip (joined held ++ " " ++ clean line) = joined (held ++ [line]) := by
  have hne : inked held ≠ [] := by
    obtain ⟨first, rest, rfl, hfirst⟩ := h.first
    exact inked_cons_ne_nil hfirst rest
  by_cases hline : clean line = ""
  · have hjoined : joined (held ++ [line]) = joined held := by
      rw [joined, inked_append, inked_of_blank hline, List.append_nil, ← joined]
    rw [hjoined, hline, strip, toList_join, String.toList_empty,
      stripChars_append_right isBlank_of_mem_space, ← strip, h.isClean.strip_eq]
  · have hjoined : joined (held ++ [line]) = joined held ++ " " ++ clean line := by
      rw [joined, inked_append, inked_of_ne_empty hline,
        String.intercalate_append_of_ne_nil hne (List.cons_ne_nil _ _),
        String.intercalate_singleton, ← joined]
    have hstripped : IsStripped (joined held ++ " " ++ clean line).toList := by
      rw [String.toList_append, String.toList_append]
      exact isStripped_append h.isClean.stripped (IsClean.toList_ne_nil (ne_empty_of_goesOn h.more))
        (isClean_clean line).stripped (IsClean.toList_ne_nil hline)
    rw [hjoined, strip, hstripped.stripChars_eq, String.ofList_toList]

/-- A block stays open with one more line, if it was open before. -/
theorem IsOpen.staysOpen_append (h : IsOpen held) (line : String) :
    StaysOpen (held ++ [line]) := by
  intro k hpos hlt
  rw [List.length_append, List.length_singleton] at hlt
  rcases Nat.lt_or_ge k held.length with hk | hk
  · rw [List.take_append_of_le_length hk.le]
    exact h.stays k hpos hk
  · obtain rfl : k = held.length := by omega
    rw [List.take_left]
    exact h.more

/-- An open block stays open if its text with the next line does. -/
theorem IsOpen.append (h : IsOpen held) (hmore : goesOn (joined (held ++ [line])) = true) :
    IsOpen (held ++ [line]) where
  first := by
    obtain ⟨first, rest, rfl, hfirst⟩ := h.first
    exact ⟨first, rest ++ [line], rfl, hfirst⟩
  isClean := by
    rw [← h.strip_join line]
    exact isClean_join h.isClean (isClean_clean line)
  stays := h.staysOpen_append line
  more := hmore

theorem staysOpen_singleton (line : String) : StaysOpen [line] := by
  intro k hpos hlt
  rw [List.length_singleton] at hlt
  omega

/-- A line that goes on begins an open block. -/
theorem isOpen_singleton (hline : clean line ≠ "") (hmore : goesOn (joined [line]) = true) :
    IsOpen [line] where
  first := ⟨line, [], rfl, hline⟩
  isClean := by
    rw [joined_singleton hline]
    exact isClean_clean line
  stays := staysOpen_singleton line
  more := hmore

/-! ### Following the lines -/

theorem add_closed (done : List (String × Int)) (line : String) (n : Int) :
    (add ⟨done, false⟩ line n).2 =
      ⟨if (clean line).isEmpty then done else done ++ [(clean line, n)], goesOn (clean line)⟩ :=
  rfl

theorem add_opened (done : List (String × Int)) (text line : String) (number n : Int) :
    (add ⟨done ++ [(text, number)], true⟩ line n).2 =
      ⟨done ++ [(strip (text ++ " " ++ clean line), number)],
        goesOn (strip (text ++ " " ++ clean line))⟩ := by
  simp [add]

/-- The statement of a block. -/
def statementOf (b : Int × List String) : String × Int :=
  (joined b.2, b.1)

/-- Whether lines that are numbered from `n` on are cut into blocks, each open up to its last line,
whose statements are the given ones. -/
def Cuts (n : Int) (lines : List String) (statements : List (String × Int)) : Prop :=
  ∃ blocks, Divides n lines blocks ∧ (∀ b ∈ blocks, StaysOpen b.2) ∧
    statements = blocks.map statementOf

theorem Cuts.cons {rest : List String} {statements : List (String × Int)}
    (h : Cuts (n + (line :: rest).length) lines statements) (hline : clean line ≠ "")
    (hstays : StaysOpen (line :: rest)) :
    Cuts n (line :: rest ++ lines) ((joined (line :: rest), n) :: statements) := by
  obtain ⟨blocks, hdivides, hblocks, rfl⟩ := h
  exact ⟨(n, line :: rest) :: blocks, .block hline hdivides,
    List.forall_mem_cons.mpr ⟨hstays, hblocks⟩, rfl⟩

/-- **The lines after a complete statement, or after an open one, are cut into blocks**, the first
of which is the open one with the lines that it takes. -/
theorem exists_blocks (lines : List String) (n : Int) (done : List (String × Int)) :
    (∃ statements, (addAll ⟨done, false⟩ n lines).statements = done ++ statements ∧
      Cuts n lines statements) ∧
    ∀ (block : List String) (number : Int), IsOpen block → number + block.length = n →
      ∃ statements, (addAll ⟨done ++ [(joined block, number)], true⟩ n lines).statements =
        done ++ statements ∧ Cuts number (block ++ lines) statements := by
  induction lines generalizing n done with
  | nil =>
    refine ⟨⟨[], by simp [addAll], [], .none n, by simp, rfl⟩, fun block number hopen _ => ?_⟩
    obtain ⟨first, rest, rfl, hfirst⟩ := hopen.first
    exact ⟨[(joined (first :: rest), number)], rfl,
      Cuts.cons ⟨[], .none _, by simp, rfl⟩ hfirst hopen.stays⟩
  | cons line lines ih =>
    constructor
    · rw [addAll, add_closed]
      by_cases hline : clean line = ""
      · obtain ⟨statements, heq, blocks, hdivides, hrest⟩ := (ih (n + 1) done).1
        refine ⟨statements, ?_, blocks, .blank hline hdivides, hrest⟩
        rw [hline]
        exact heq
      · have hempty : (clean line).isEmpty = false := by simpa using hline
        rw [hempty, ← joined_singleton hline, if_neg Bool.false_ne_true]
        cases hmore : goesOn (joined [line]) with
        | true =>
          exact (ih (n + 1) done).2 [line] n (isOpen_singleton hline hmore) rfl
        | false =>
          obtain ⟨statements, heq, hcuts⟩ := (ih (n + 1) (done ++ [(joined [line], n)])).1
          exact ⟨(joined [line], n) :: statements, heq.trans (List.append_assoc ..),
            hcuts.cons hline (staysOpen_singleton line)⟩
    · intro block number hopen hnumber
      rw [addAll, add_opened, hopen.strip_join]
      have hlength : number + ((block ++ [line]).length : Int) = n + 1 := by
        rw [List.length_append, List.length_singleton]
        omega
      rw [List.append_cons block line lines]
      cases hmore : goesOn (joined (block ++ [line])) with
      | true => exact (ih (n + 1) done).2 _ number (hopen.append hmore) hlength
      | false =>
        obtain ⟨statements, heq, hcuts⟩ :=
          (ih (n + 1) (done ++ [(joined (block ++ [line]), number)])).1
        refine ⟨(joined (block ++ [line]), number) :: statements,
          heq.trans (List.append_assoc ..), ?_⟩
        have hstays := hopen.staysOpen_append line
        obtain ⟨first, rest, rfl, hfirst⟩ := hopen.first
        rw [← hlength] at hcuts
        exact hcuts.cons hfirst hstays

/-! ### The statements of a file -/

/-- Only the last statement of a file may be open. -/
theorem goesOn_eq_false_of_mem_dropLast {lines : List String} {s : String × Int}
    (h : s ∈ (statements lines).dropLast) : goesOn s.1 = false := by
  have hnone : AreComplete [] := by simp [AreComplete]
  obtain ⟨done, held, hcollects⟩ := (Collects.closed hnone).exists_addAll 1 lines
  rw [statements] at h
  generalize addAll ⟨[], false⟩ 1 lines = p at h hcollects
  cases hcollects with
  | closed hdone => exact (hdone s (List.dropLast_subset _ h)).2
  | opened hdone _ _ =>
    rw [List.dropLast_concat] at h
    exact (hdone s h).2

/-- **The statements of a file are its lines**, grouped without loss. Joined with single spaces they
are the clean lines that are not empty, in order, joined in this way; none but the last one has
more opening than closing parentheses; and they are numbered upwards. Each is the text of a block
of lines, with the number of the first of them, which is not blank; the blocks are disjoint, they
hold all lines that are not blank, and after each line of a block but the last one there are more
opening than closing parentheses in it. -/
theorem statements_lossless (lines : List String) :
    " ".intercalate ((statements lines).map (·.1)) =
        " ".intercalate ((lines.map clean).filter (· ≠ "")) ∧
      (∀ s ∈ (statements lines).dropLast, s.1.toList.count '(' ≤ s.1.toList.count ')') ∧
      ((statements lines).map (·.2)).Pairwise (· < ·) ∧
      ∃ blocks : List (Int × List String), Divides 1 lines blocks ∧
        statements lines = blocks.map (fun b => (joined b.2, b.1)) ∧
        ∀ b ∈ blocks,
          (∃ front line rest back, lines = front ++ line :: rest ++ back ∧
            b = (1 + (front.length : Int), line :: rest) ∧ clean line ≠ "") ∧
          ∀ k, 0 < k → k < b.2.length →
            (joined (b.2.take k)).toList.count ')' < (joined (b.2.take k)).toList.count '(' := by
  obtain ⟨_, heq, blocks, hdivides, hstays, rfl⟩ := (exists_blocks lines 1 []).1
  have hblocks : statements lines = blocks.map statementOf := heq
  refine ⟨?_, fun s hs => ?_, ?_, blocks, hdivides, hblocks, fun b hb =>
    ⟨hdivides.exists_append b hb, fun k hpos hlt => ?_⟩⟩
  · rw [hblocks, List.map_map]
    exact hdivides.intercalate_joined
  · have hdone := goesOn_eq_false_of_mem_dropLast hs
    rw [goesOn, decide_eq_false_iff_not] at hdone
    exact Nat.le_of_not_lt hdone
  · rw [hblocks, List.map_map]
    exact hdivides.pairwise_lt
  · exact of_decide_eq_true (hstays b hb k hpos hlt)

/-- A blank line in an open statement, a comment, and a statement that closes too much. -/
example : statements ["(a ;; (", "", " b) c)", ";; d", "e", "(f", " "] =
    [("(a b) c)", 1), ("e", 5), ("(f", 6)] := by
  decide +kernel

end Grouping

end LambdaTrace
