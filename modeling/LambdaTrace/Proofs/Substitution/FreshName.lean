import LambdaTrace.Term.Substitute
import Mathlib

/-!
# Names that extend one another

A generated name is an old one followed by the decimal form of a number. The word
for that is *extension* (`LambdaTrace.Extends`): a name followed by one or more
decimal digits. The facts on generated names that substitution rests on are that
they are not taken (`LambdaTrace.freshName_notMem`) and that they extend the name
they were made from (`LambdaTrace.extends_freshName`), so that they are longer.

The number is found by counting up from zero (`LambdaTrace.Search`). Nothing gets
smaller on the way; that the count ends, and when, is a matter of there being only
finitely many taken names while different numbers make different candidates
(`LambdaTrace.search_ends`).
-/

namespace LambdaTrace

/-! ### Extensions -/

/-- **A name extends another** if it is that name followed by one or more decimal
digits. -/
def Extends (n y : String) : Prop :=
  ∃ digits : List Char, digits ≠ [] ∧ (∀ c ∈ digits, c.isDigit = true) ∧
    n.toList = y.toList ++ digits

theorem Extends.length_lt {n y : String} (h : Extends n y) : y.length < n.length := by
  obtain ⟨digits, hne, -, heq⟩ := h
  rw [← String.length_toList, ← String.length_toList, heq, List.length_append]
  have hpos : 0 < digits.length := List.length_pos_iff.mpr hne
  omega

theorem Extends.ne {n y : String} (h : Extends n y) : n ≠ y := by
  intro he
  exact absurd h.length_lt (by rw [he]; exact lt_irrefl _)

/-- **Two names with a common extension** are the same, or one extends the other. -/
theorem Extends.comparable {n y z : String} (hy : Extends n y) (hz : Extends n z) :
    y = z ∨ Extends y z ∨ Extends z y := by
  obtain ⟨d, hd, hdig, heq⟩ := hy
  obtain ⟨e, he, heig, heq'⟩ := hz
  rw [heq] at heq'
  -- of two fronts of one text one is the front of the other
  rcases List.append_eq_append_iff.mp heq' with ⟨c, hc, hde⟩ | ⟨c, hc, hde⟩
  · rcases c with _ | ⟨a, c⟩
    · exact Or.inl (String.toList_injective (by simpa using hc.symm))
    · refine Or.inr (Or.inr ⟨a :: c, by simp, fun b hb => hdig b ?_, hc⟩)
      rw [hde]
      exact List.mem_append_left _ hb
  · rcases c with _ | ⟨a, c⟩
    · exact Or.inl (String.toList_injective (by simpa using hc))
    · refine Or.inr (Or.inl ⟨a :: c, by simp, fun b hb => heig b ?_, hc⟩)
      rw [hde]
      exact List.mem_append_left _ hb

/-! ### Generated names -/

theorem extends_append_toString (name : String) (k : Nat) : Extends (name ++ toString k) name := by
  refine ⟨Nat.toDigits 10 k, Nat.toDigits_ne_nil, fun c hc => ?_, ?_⟩
  · exact Nat.isDigit_of_mem_toDigits (by omega) (by omega) hc
  · rw [String.toList_append, Nat.toString_eq_repr, Nat.toList_repr]

theorem append_toString_injective (name : String) :
    Function.Injective fun k : Nat => name ++ toString k := by
  intro i j hij
  have h := congrArg String.toList hij
  simp only [String.toList_append, List.append_cancel_left_eq] at h
  exact Nat.repr_inj.mp (String.toList_injective h)

/-- One of the candidates is not taken, and no more numbers are passed over on the way to it
than there are taken names. -/
theorem exists_candidate (name : String) (taken : List String) :
    ∃ k ≤ taken.toFinset.card, name ++ toString k ∉ taken := by
  let candidates := (Finset.range (taken.toFinset.card + 1)).image fun k : Nat => name ++ toString k
  have hcard : candidates.card = taken.toFinset.card + 1 := by
    rw [Finset.card_image_of_injective _ (append_toString_injective name), Finset.card_range]
  -- there is one more of the distinct candidates than there are taken names
  obtain ⟨n, hn, hfree⟩ := Finset.exists_mem_notMem_of_card_lt_card
    (show taken.toFinset.card < candidates.card by omega)
  obtain ⟨k, hk, rfl⟩ := Finset.mem_image.mp hn
  exact ⟨k, Nat.le_of_lt_succ (Finset.mem_range.mp hk), fun h => hfree (List.mem_toFinset.mpr h)⟩

/-- The generated name is the first candidate that is not taken. -/
theorem freshName_eq (name : String) (taken : List String) :
    ∃ k ≤ taken.toFinset.card, freshName name taken = name ++ toString k ∧
      name ++ toString k ∉ taken ∧ ∀ j < k, name ++ toString j ∈ taken := by
  obtain ⟨m, hm, hfree⟩ := exists_candidate name taken
  have hex : ∃ k : Nat, name ++ toString k ∉ taken := ⟨m, hfree⟩
  have hle : Nat.find hex ≤ taken.toFinset.card := (Nat.find_min' hex hfree).trans hm
  have hused : ∀ j < Nat.find hex, name ++ toString j ∈ taken :=
    fun j hj => not_not.mp (Nat.find_min hex hj)
  refine ⟨Nat.find hex, hle, ?_, Nat.find_spec hex, hused⟩
  have hlt : Nat.find hex < taken.length + 1 :=
    Nat.lt_succ_of_le (hle.trans (List.toFinset_card_le taken))
  have hsome : ((List.range (taken.length + 1)).find? fun k =>
      !taken.contains (name ++ toString k)) = some (Nat.find hex) := by
    refine List.find?_range_eq_some.mpr ⟨?_, List.mem_range.mpr hlt, fun j hj => ?_⟩
    · simpa using Nat.find_spec hex
    · simpa using hused j hj
  simp only [freshName, hsome, Option.getD_some]

/-- **A generated name is not taken.** -/
theorem freshName_notMem (name : String) (taken : List String) :
    freshName name taken ∉ taken := by
  obtain ⟨k, -, heq, hk, -⟩ := freshName_eq name taken
  rw [heq]
  exact hk

/-- **A generated name extends** the name it was made from. -/
theorem extends_freshName (name : String) (taken : List String) :
    Extends (freshName name taken) name := by
  obtain ⟨k, -, heq, -⟩ := freshName_eq name taken
  rw [heq]
  exact extends_append_toString name k

/-! ### The search for a suffix -/

/-- **The loop that looks for a suffix**: from a number on it ends after so many increments with
that name. It ends at a candidate that is not taken and goes on to the next number from one that
is. Nothing here says that it ever ends. -/
inductive Search (name : String) (taken : List String) : Nat → Nat → String → Prop
  | found {k : Nat} (free : name ++ toString k ∉ taken) :
    Search name taken k 0 (name ++ toString k)
  | next {k n : Nat} {result : String} (used : name ++ toString k ∈ taken)
      (rest : Search name taken (k + 1) n result) : Search name taken k (n + 1) result

/-- **What the loop passes over** is taken, and what it ends at is not. -/
theorem search_iff {name : String} {taken : List String} {k n : Nat} {result : String} :
    Search name taken k n result ↔ result = name ++ toString (k + n) ∧ result ∉ taken ∧
      ∀ j < n, name ++ toString (k + j) ∈ taken := by
  constructor
  · intro h
    induction h with
    | found free => exact ⟨rfl, free, fun j hj => absurd hj (Nat.not_lt_zero j)⟩
    | @next k n result used _ ih =>
      obtain ⟨hresult, hfree, hused⟩ := ih
      refine ⟨by rw [hresult, Nat.succ_add_eq_add_succ], hfree, fun j hj => ?_⟩
      cases j with
      | zero => exact used
      | succ j => simpa only [Nat.succ_add_eq_add_succ] using hused j (Nat.lt_of_succ_lt_succ hj)
  · rintro ⟨rfl, hfree, hused⟩
    induction n generalizing k with
    | zero => exact .found hfree
    | succ n ih =>
      have hrest := @ih (k + 1)
      simp only [Nat.succ_add_eq_add_succ] at hrest
      exact .next (hused 0 n.succ_pos)
        (hrest hfree fun j hj => hused (j + 1) (Nat.succ_lt_succ hj))

/-- **The search ends at the first suffix that is free**, after no more increments than there
are taken names, and there is no other way for it to end. The generated name is what it ends
with: the name with that suffix, which is not taken and not the name itself, while the name with
any smaller suffix is taken. -/
theorem search_ends (name : String) (taken : List String) :
    ∃ k ≤ taken.toFinset.card,
      (∀ n result, Search name taken 0 n result ↔ n = k ∧ result = freshName name taken) ∧
      freshName name taken = name ++ toString k ∧ freshName name taken ∉ taken ∧
      freshName name taken ≠ name ∧ ∀ j < k, name ++ toString j ∈ taken := by
  obtain ⟨k, hk, heq, hfree, hused⟩ := freshName_eq name taken
  refine ⟨k, hk, fun n result => ?_, heq, freshName_notMem name taken,
    (extends_freshName name taken).ne, hused⟩
  simp only [search_iff, Nat.zero_add]
  constructor
  · rintro ⟨rfl, hn, hpassed⟩
    -- neither of the two suffixes is before the other
    have hnk : n = k := by
      rcases Nat.lt_trichotomy n k with h | h | h
      · exact absurd (hused n h) hn
      · exact h
      · exact absurd (hpassed k h) hfree
    exact ⟨hnk, by rw [hnk, heq]⟩
  · rintro ⟨rfl, rfl⟩
    exact ⟨heq, freshName_notMem name taken, hused⟩

example : freshName "y" ["x0", "y0", "y1"] = "y2" := by decide

end LambdaTrace
