import Mathlib.Data.List.TakeWhile
import LambdaTrace.Files.Store

/-!
# Absolute names in normal form

A working directory is given by an absolute name, and then the absolute name of every file
is in normal form: a slash or two, and parts with single slashes between them, none of which
is empty, a dot or two dots. Two names of this form are the same name or name different
places, so a stack of such names tells whether a file is on it.
-/

namespace LambdaTrace

namespace FileName

/-- A part that is left in a normal form of an absolute name. -/
def IsPart (p : List Char) : Prop :=
  p ≠ [] ∧ p ≠ ['.'] ∧ p ≠ ['.', '.'] ∧ '/' ∉ p

/-- **An absolute name in normal form.** -/
def IsNormal (name : String) : Prop :=
  ∃ slashes ps, (slashes = 1 ∨ slashes = 2) ∧ (∀ p ∈ ps, IsPart p) ∧
    name.toList = List.replicate slashes '/' ++ joinParts ps

/-- The parts of a name have no slash in them. -/
theorem notMem_of_mem_parts {s p : List Char} (h : p ∈ parts s) : '/' ∉ p := by
  fun_induction parts s generalizing p with
  | case1 => simp_all
  | case2 s ih =>
    rcases List.mem_cons.mp h with rfl | h
    · exact List.not_mem_nil
    · exact ih h
  | case3 c s hc _ _ =>
    obtain rfl := List.mem_singleton.mp h
    simpa using fun heq => hc heq.symm
  | case4 c s hc q qs hparts ih =>
    rcases List.mem_cons.mp h with rfl | h
    · rw [List.mem_cons, not_or]
      exact ⟨fun heq => hc heq.symm, ih (hparts ▸ List.mem_cons_self)⟩
    · exact ih (hparts ▸ List.mem_cons_of_mem _ h)

/-- In an absolute name, `..` never stays. -/
theorem isPart_of_mem_push {kept : List (List Char)} {part p : List Char}
    (hkept : ∀ q ∈ kept, IsPart q) (hpart : '/' ∉ part) (h : p ∈ push true kept part) :
    IsPart p := by
  unfold push at h
  split at h
  · exact hkept p h
  · rename_i hplain
    split at h
    · split at h
      · simp at h
      · rename_i last rest
        have hlast := hkept last List.mem_cons_self
        rw [if_neg (by simpa using hlast.2.2.1)] at h
        exact hkept p (List.mem_cons_of_mem _ h)
    · rename_i hup
      rcases List.mem_cons.mp h with rfl | h
      · simp only [Bool.or_eq_true, List.isEmpty_iff, beq_iff_eq, not_or] at hplain hup
        exact ⟨hplain.1, hplain.2, hup, hpart⟩
      · exact hkept p h

theorem isPart_of_mem_foldl_push {ps kept : List (List Char)} {p : List Char}
    (hps : ∀ q ∈ ps, '/' ∉ q) (hkept : ∀ q ∈ kept, IsPart q)
    (h : p ∈ ps.foldl (push true) kept) : IsPart p := by
  induction ps generalizing kept with
  | nil => exact hkept p h
  | cons part ps ih =>
    exact ih (fun q hq => hps q (List.mem_cons_of_mem _ hq))
      (fun q hq => isPart_of_mem_push hkept (hps part List.mem_cons_self) hq) h

theorem rootSlashes_cons (s : List Char) :
    rootSlashes ('/' :: s) = 1 ∨ rootSlashes ('/' :: s) = 2 := by
  unfold rootSlashes
  split <;> simp_all

/-- **The normal form of an absolute name.** -/
theorem isNormal_normalize {name : String} {s : List Char} (h : name.toList = '/' :: s) :
    IsNormal (normalize name) := by
  have hslashes := rootSlashes_cons s
  rw [← h] at hslashes
  have hrooted : (rootSlashes name.toList != 0) = true := by
    rcases hslashes with h | h <;> rw [h] <;> rfl
  refine ⟨rootSlashes name.toList, ((parts name.toList).foldl (push true) []).reverse, hslashes,
    fun p hp => ?_, ?_⟩
  · exact isPart_of_mem_foldl_push (fun q hq => notMem_of_mem_parts hq)
      (fun q hq => absurd hq List.not_mem_nil) (List.mem_reverse.mp hp)
  · rw [normalize, String.toList_ofList, normalizeChars, hrooted]
    rcases hslashes with h | h <;> rw [h] <;> rfl

/-- A name seen from an absolute directory is absolute. -/
theorem exists_joinChars_eq {dir s : List Char} (h : dir = '/' :: s) (name : List Char) :
    ∃ t, joinChars dir name = '/' :: t := by
  unfold joinChars
  split
  · exact ⟨_, rfl⟩
  · split
    · rename_i hlast
      rw [List.getLast?_eq_none_iff, h] at hlast
      cases hlast
    · rw [h]
      exact ⟨_, rfl⟩
    · rw [h]
      exact ⟨_, rfl⟩

/-- The directory of an absolute name is absolute. -/
theorem exists_directoryChars_eq {s t : List Char} (h : s = '/' :: t) :
    ∃ u, directoryChars s = '/' :: u := by
  subst h
  have hhead : ∃ u, ((('/' :: t).reverse.dropWhile (· != '/')).reverse) = '/' :: u := by
    rw [List.reverse_cons, List.dropWhile_append]
    split
    · exact ⟨[], rfl⟩
    · exact ⟨_, List.reverse_concat⟩
  obtain ⟨u, hu⟩ := hhead
  rw [directoryChars, hu]
  split
  · exact ⟨u, rfl⟩
  · rename_i hall
    rw [List.reverse_cons, List.dropWhile_append, if_neg]
    · exact ⟨_, List.reverse_concat⟩
    · intro hempty
      rw [List.isEmpty_iff, List.dropWhile_eq_nil_iff] at hempty
      refine hall (List.all_eq_true.mpr fun c hc => ?_)
      rcases List.mem_cons.mp hc with rfl | hc
      · rfl
      · exact hempty c (List.mem_reverse.mpr hc)

theorem IsNormal.exists_eq {name : String} (h : IsNormal name) : ∃ t, name.toList = '/' :: t := by
  obtain ⟨slashes, ps, hslashes, -, heq⟩ := h
  rcases hslashes with rfl | rfl <;> exact ⟨_, heq⟩

end FileName

namespace Files

variable {files : Files}

/-- Whether the working directory is given by an absolute name. -/
def IsRooted (files : Files) : Prop :=
  files.directory.toList.head? = some '/'

instance (files : Files) : Decidable files.IsRooted :=
  inferInstanceAs (Decidable (_ = _))

theorem IsRooted.exists_join (h : files.IsRooted) (name : String) :
    ∃ s, (FileName.join files.directory name).toList = '/' :: s := by
  obtain ⟨s, hs⟩ := List.head?_eq_some_iff.mp h
  rw [FileName.join, String.toList_ofList]
  exact FileName.exists_joinChars_eq hs _

/-- **Absolute names are in normal form.** -/
theorem IsRooted.isNormal_absolute (h : files.IsRooted) (name : String) :
    FileName.IsNormal (files.absolute name) := by
  obtain ⟨s, hs⟩ := h.exists_join name
  exact FileName.isNormal_normalize hs

/-- **The names of imported files are absolute.** -/
theorem IsRooted.exists_imported (h : files.IsRooted) (importer name : String) :
    ∃ s, (files.imported importer name).toList = '/' :: s := by
  obtain ⟨s, hs⟩ := (h.isNormal_absolute importer).exists_eq
  obtain ⟨t, ht⟩ := FileName.exists_directoryChars_eq hs
  rw [imported, FileName.join, FileName.directory, String.toList_ofList, String.toList_ofList]
  exact FileName.exists_joinChars_eq ht _

end Files

end LambdaTrace
