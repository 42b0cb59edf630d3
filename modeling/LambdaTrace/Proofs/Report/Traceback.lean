import Mathlib.Data.List.Chain
import Mathlib.Data.List.Nodup
import LambdaTrace.Report.Reporter

/-!
# The list of files

The reporter lists files in the order in which they were first met. A file that is met again
keeps its place, with another statement; a file that is taken off and met again goes to the end.
So of the files that are never taken off, the list keeps the order
(`LambdaTrace.Traceback.Keeps`). Only an error that is not fatal makes the reporter forget the
statements; all else that it writes leaves the list alone.
-/

namespace LambdaTrace

namespace Traceback

variable {t t' t'' : Traceback} {path q : String} {line l : Option (String × Int)}

/-! ### Setting, erasing and forgetting -/

theorem paths_set (t : Traceback) (path : String) (line : Option (String × Int)) :
    (t.set path line).paths = if path ∈ t.paths then t.paths else t.paths ++ [path] := by
  induction t with
  | nil => rfl
  | cons entry t ih =>
    obtain ⟨q, l⟩ := entry
    by_cases h : q = path
    · simp [set, paths, h]
    · have hset : paths (set ((q, l) :: t) path line) = q :: paths (set t path line) := by
        simp [set, paths, h]
      have hpaths : paths ((q, l) :: t) = q :: paths t := rfl
      have hne : path ≠ q := fun heq => h heq.symm
      rw [hset, hpaths, ih]
      simp only [List.mem_cons, hne, false_or]
      split <;> rfl

theorem mem_paths_set : q ∈ (t.set path line).paths ↔ q = path ∨ q ∈ t.paths := by
  rw [paths_set]
  split
  · rename_i h
    exact ⟨Or.inr, fun hq => hq.elim (fun heq => heq ▸ h) id⟩
  · simp [or_comm]

theorem nodup_paths_set (h : t.paths.Nodup) (path : String) (line : Option (String × Int)) :
    (t.set path line).paths.Nodup := by
  rw [paths_set]
  split
  · exact h
  · rename_i hpath
    refine List.nodup_append.mpr ⟨h, List.nodup_singleton path, ?_⟩
    rintro a ha b hb rfl
    exact hpath (List.mem_singleton.mp hb ▸ ha)

theorem paths_erase (t : Traceback) (path : String) :
    (t.erase path).paths = t.paths.filter (· != path) := by
  rw [paths, paths, erase, List.filter_map]
  rfl

theorem nodup_paths_erase (h : t.paths.Nodup) (path : String) : (t.erase path).paths.Nodup := by
  rw [paths_erase]
  exact h.filter _

theorem mem_paths_erase : q ∈ (t.erase path).paths ↔ q ≠ path ∧ q ∈ t.paths := by
  rw [paths_erase, List.mem_filter, bne_iff_ne, and_comm]

theorem paths_clear (t : Traceback) : t.clear.paths = t.paths := by
  rw [paths, paths, clear, List.map_map]
  rfl

theorem mem_paths_of_mem (h : (q, l) ∈ t) : q ∈ t.paths :=
  List.mem_map_of_mem h

theorem mem_erase : (q, l) ∈ t.erase path ↔ q ≠ path ∧ (q, l) ∈ t := by
  rw [erase, List.mem_filter, bne_iff_ne, and_comm]

theorem notMem_clear {v : String × Int} : (q, some v) ∉ t.clear := by
  simp [clear]

/-- What is known of a file after another has been set. -/
theorem mem_set (h : t.paths.Nodup) :
    (q, l) ∈ t.set path line ↔ (q = path ∧ l = line) ∨ (q ≠ path ∧ (q, l) ∈ t) := by
  induction t with
  | nil =>
    simp only [set, List.mem_singleton, Prod.mk.injEq, List.not_mem_nil, and_false, or_false]
  | cons entry t ih =>
    obtain ⟨r, k⟩ := entry
    obtain ⟨hr, ht⟩ := List.nodup_cons.mp h
    by_cases hrp : r = path
    · subst hrp
      have hnot : (q, l) ∈ t → q ≠ r := fun hmem heq => hr (heq ▸ mem_paths_of_mem hmem)
      simp only [set, beq_self_eq_true, if_true, List.mem_cons, Prod.mk.injEq]
      grind
    · have hset : set ((r, k) :: t) path line = (r, k) :: set t path line := by
        simp [set, hrp]
      rw [hset, List.mem_cons, ih ht, List.mem_cons]
      simp only [Prod.mk.injEq]
      grind

/-! ### Order -/

/-- **Whether the files of a kind stay listed**, in the order in which they are. -/
def Keeps (K : String → Prop) (t t' : Traceback) : Prop :=
  ∀ listed : List String, listed.Sublist t.paths → (∀ p ∈ listed, K p) → listed.Sublist t'.paths

namespace Keeps

variable {K K' : String → Prop}

theorem refl (t : Traceback) : Keeps K t t :=
  fun _ hl _ => hl

theorem trans (h : Keeps K t t') (h' : Keeps K t' t'') : Keeps K t t'' :=
  fun l hl hK => h' l (h l hl hK) hK

theorem mono (hK : ∀ p, K p → K' p) (h : Keeps K' t t') : Keeps K t t' :=
  fun l hl hl' => h l hl fun p hp => hK p (hl' p hp)

theorem set (path : String) (line : Option (String × Int)) : Keeps K t (t.set path line) := by
  intro l hl _
  rw [paths_set]
  split
  · exact hl
  · exact hl.trans (List.sublist_append_left _ _)

/-- A file of another kind may be taken off. -/
theorem erase (h : ¬ K path) : Keeps K t (t.erase path) := by
  intro l hl hK
  have hself : l.filter (· != path) = l :=
    List.filter_eq_self.mpr fun p hp => bne_iff_ne.mpr fun heq => h (heq ▸ hK p hp)
  rw [paths_erase, ← hself]
  exact hl.filter _

theorem mem (h : Keeps K t t') (hK : K path) (hpath : path ∈ t.paths) : path ∈ t'.paths :=
  List.singleton_sublist.mp
    (h [path] (List.singleton_sublist.mpr hpath) fun _ hp => List.mem_singleton.mp hp ▸ hK)

end Keeps

/-! ### The statements in order -/

section Order

variable {listed : List String} {a b : String}

/-- Of two members of a list one stands before the other. -/
theorem sublist_or_sublist (ha : a ∈ listed) (hb : b ∈ listed) (hne : a ≠ b) :
    [a, b].Sublist listed ∨ [b, a].Sublist listed := by
  obtain ⟨xs, ys, rfl⟩ := List.append_of_mem ha
  rcases List.mem_append.mp hb with hxs | hys
  · exact Or.inr ((List.singleton_sublist.mpr hxs).append
      (List.singleton_sublist.mpr List.mem_cons_self))
  · have hys' := (List.mem_cons.mp hys).resolve_left hne.symm
    exact Or.inl (((List.singleton_sublist.mpr hys').cons_cons a).trans
      (List.sublist_append_right xs _))

theorem pairwise_idxOf (h : listed.Nodup) :
    listed.Pairwise fun a b => listed.idxOf a < listed.idxOf b := by
  rw [List.pairwise_iff_getElem]
  intro i j hi hj hij
  rwa [h.idxOf_getElem i hi, h.idxOf_getElem j hj]

theorem idxOf_lt_of_sublist (h : listed.Nodup) (hab : [a, b].Sublist listed) :
    listed.idxOf a < listed.idxOf b :=
  List.rel_of_pairwise_cons ((pairwise_idxOf h).sublist hab) (List.mem_singleton_self b)

/-- In a list without repetitions, only one of two members stands before the other. -/
theorem not_sublist_of_sublist (h : listed.Nodup) (hab : [a, b].Sublist listed) :
    ¬ [b, a].Sublist listed :=
  fun hba => Nat.lt_asymm (idxOf_lt_of_sublist h hab) (idxOf_lt_of_sublist h hba)

/-- The members of a part of a list stand before one another. -/
theorem isChain_of_sublist {part : List String} (h : part.Sublist listed) :
    part.IsChain fun a b => [a, b].Sublist listed := by
  induction part with
  | nil => exact List.isChain_nil
  | cons a part ih =>
    have hrest := ih ((List.sublist_cons_self a part).trans h)
    cases part with
    | nil => exact List.isChain_singleton a
    | cons b part =>
      have hfirst : [a, b].Sublist (a :: b :: part) :=
        ((List.nil_sublist part).cons_cons b).cons_cons a
      exact List.isChain_cons_cons.mpr ⟨hfirst.trans h, hrest⟩

/-- Files that stay listed keep their order. -/
theorem Keeps.sublist_iff {K : String → Prop} (h : Keeps K t t') (hnodup : t'.paths.Nodup)
    (ha : a ∈ t.paths) (hb : b ∈ t.paths) (hKa : K a) (hKb : K b) (hne : a ≠ b) :
    [a, b].Sublist t'.paths ↔ [a, b].Sublist t.paths := by
  have hkept : ∀ {p q}, K p → K q → [p, q].Sublist t.paths → [p, q].Sublist t'.paths :=
    fun hp hq hpq => h _ hpq (by simp [hp, hq])
  refine ⟨fun hab => ?_, hkept hKa hKb⟩
  rcases sublist_or_sublist ha hb hne with hab' | hba
  · exact hab'
  · exact absurd (hkept hKb hKa hba) (not_sublist_of_sublist hnodup hab)

/-- **A file that is set comes behind another one**, unless it was listed before it. -/
theorem sublist_paths_set_iff (h : t.paths.Nodup) (ha : a ∈ t.paths) (hne : a ≠ path)
    (line : Option (String × Int)) :
    [a, path].Sublist (t.set path line).paths ↔ ¬ [path, a].Sublist t.paths := by
  rw [paths_set]
  split
  · rename_i hpath
    exact ⟨not_sublist_of_sublist h, (sublist_or_sublist ha hpath hne).resolve_right⟩
  · rename_i hpath
    have hbehind : [a, path].Sublist (t.paths ++ [path]) :=
      (List.singleton_sublist.mpr ha).append (List.Sublist.refl [path])
    exact ⟨fun _ hsub => hpath (hsub.subset List.mem_cons_self), fun _ => hbehind⟩

end Order

/-- A statement that is being worked on counts, unless it is empty. -/
theorem mem_active {v : String × Int} : (q, v) ∈ t.active ↔ (q, some v) ∈ t ∧ v.1 ≠ "" := by
  obtain ⟨text, number⟩ := v
  rw [active, List.mem_filterMap]
  constructor
  · rintro ⟨⟨p, line⟩, hmem, heq⟩
    obtain ⟨⟨text', number'⟩, hline, hsome⟩ := Option.bind_eq_some_iff.mp heq
    dsimp only at hsome
    split at hsome
    · cases hsome
    · rename_i hempty
      cases hsome
      exact ⟨hline ▸ hmem, by simpa using hempty⟩
  · rintro ⟨hmem, hempty⟩
    refine ⟨_, hmem, ?_⟩
    simpa using hempty

theorem sublist_map_active (t : Traceback) : (t.active.map (·.1)).Sublist t.paths := by
  induction t with
  | nil => exact List.Sublist.slnil
  | cons entry t ih =>
    obtain ⟨p, line⟩ := entry
    have hskip : (active t).map (·.1) |>.Sublist (paths ((p, line) :: t)) := ih.cons p
    rw [active, List.filterMap_cons]
    split
    · exact hskip
    · rename_i x hx
      obtain ⟨⟨text, number⟩, -, hsome⟩ := Option.bind_eq_some_iff.mp hx
      dsimp only at hsome
      split at hsome
      · cases hsome
      · cases hsome
        exact ih.cons_cons p

/-- **The statements that are shown**, where it is known which ones: they are shown in an order
if the files are listed in it. -/
theorem active_perm_and_eq_iff (h : t.paths.Nodup) {entries : List (String × String × Int)}
    (hentries : (entries.map (·.1)).Nodup) (hmem : ∀ x, x ∈ t.active ↔ x ∈ entries) :
    t.active.Perm entries ∧
      (t.active = entries ↔ entries.IsChain fun x y => [x.1, y.1].Sublist t.paths) := by
  have hsub := sublist_map_active t
  have hperm : t.active.Perm entries :=
    (List.perm_ext_iff_of_nodup (.of_map _ (h.sublist hsub)) (.of_map _ hentries)).mpr hmem
  refine ⟨hperm, fun heq => ?_, fun hchain => ?_⟩
  · rw [heq] at hsub
    exact (List.isChain_map Prod.fst).mp (isChain_of_sublist hsub)
  · -- both are sorted by the places of their files
    have hactive : (t.active.map (·.1)).Pairwise fun a b => t.paths.idxOf a < t.paths.idxOf b :=
      (pairwise_idxOf h).sublist hsub
    rw [List.pairwise_map] at hactive
    have hsorted : entries.Pairwise fun x y => t.paths.idxOf x.1 < t.paths.idxOf y.1 := by
      have hplaces : (entries.map fun x => t.paths.idxOf x.1).IsChain (· < ·) :=
        (List.isChain_map _).mpr (hchain.imp fun _ _ hxy => idxOf_lt_of_sublist h hxy)
      exact List.pairwise_map.mp (List.isChain_iff_pairwise.mp hplaces)
    exact hperm.eq_of_pairwise (fun _ _ _ _ hxy hyx => absurd hxy (Nat.lt_asymm hyx)) hactive
      hsorted

end Traceback

namespace Reporter

variable {h : Reporter}

/-! ### Writing leaves the list alone -/

theorem showDiagnosis_eq (h : Reporter) (r : Report) (colour : Colour) :
    h.showDiagnosis r colour = { h with output := (h.showDiagnosis r colour).output } := by
  rw [showDiagnosis]
  split <;> rfl

theorem warn_eq (h : Reporter) (r : Report) :
    h.warn r = { h with output := (h.warn r).output } := by
  rw [warn, showDiagnosis_eq]
  rfl

theorem traceback_warn (h : Reporter) (r : Report) : (h.warn r).traceback = h.traceback := by
  rw [warn_eq]

theorem writeError_eq (h : Reporter) (r : Report) :
    h.writeError r = { h with output := (h.writeError r).output } := by
  rw [writeError, showDiagnosis_eq]
  rfl

/-- **An error that is not fatal** is written, and the statements are forgotten. -/
theorem throw_eq (hfatal : h.fatal = false) (r : Report) : h.throw r =
    { h with traceback := h.traceback.clear, output := (h.writeError r).output } := by
  rw [throw, writeError_eq]
  dsimp only
  rw [hfatal]
  rfl

end Reporter

end LambdaTrace
