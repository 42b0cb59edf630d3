import LambdaTrace.Proofs.Sharing.Calls

/-!
# The copies in a term

The term that a contraction leads to is described by where its copies are: everything else in it
has no number of the contraction (`LambdaTrace.Node.Inserts`). This is all that has to be known to
tell what is decorated (`LambdaTrace.Node.Inserts.calls_eq`), and where a copy stands
(`LambdaTrace.Node.Inserts.positions_eq`). It holds of what a substitution makes of a body
(`LambdaTrace.Node.exists_inserts`), with the copies at the positions that the substitution on terms
returns.
-/

namespace LambdaTrace

namespace Node

variable {c : Contraction} {mark : Decoration} {v n : Node} {next next' : Nat}

/-! ### Copies in a term -/

/-- Copies with their positions, from left to right. -/
abbrev Copies := List (Path × Nat)

/-- Copies in a part, seen from the node that the part stands in at a position. -/
def Copies.under (p : Path) (cs : Copies) : Copies :=
  cs.map fun q => (p ++ q.1, q.2)

theorem fst_under (p : Path) (cs : Copies) :
    (cs.under p).map (·.1) = (cs.map (·.1)).map (p ++ ·) := by
  rw [Copies.under, List.map_map, List.map_map]
  rfl

theorem snd_under (p : Path) (cs : Copies) : (cs.under p).map (·.2) = cs.map (·.2) := by
  rw [Copies.under, List.map_map]
  rfl

theorem under_under (p q : Path) (cs : Copies) : (cs.under q).under p = cs.under (p ++ q) := by
  rw [Copies.under, Copies.under, List.map_map]
  exact List.map_congr_left fun c _ => congrArg (·, c.2) (List.append_assoc p q c.1).symm

theorem under_nil (p : Path) : Copies.under p [] = [] :=
  rfl

theorem map_fst_under (p : Path) (kind : Highlight) (cs : Copies) :
    (cs.map fun q => ((q.1, kind) : Call)).map (Call.under p) =
      (cs.under p).map fun q => (q.1, kind) := by
  rw [Copies.under, List.map_map, List.map_map]
  rfl

/-- Copies with different numbers are told apart. -/
theorem filter_eq_singleton {ps : Copies} (h : (ps.map (·.2)).Nodup) {q : Path × Nat}
    (hq : q ∈ ps) : ps.filter (·.2 == q.2) = [q] := by
  induction ps with
  | nil => exact absurd hq List.not_mem_nil
  | cons r ps ih =>
    rw [List.map_cons, List.nodup_cons] at h
    have hne : ∀ t ∈ ps, t.2 ≠ r.2 := fun t ht heq => h.1 (heq ▸ List.mem_map_of_mem ht)
    rcases List.mem_cons.mp hq with rfl | hq
    · rw [List.filter_cons_of_pos (by simp), List.filter_eq_nil_iff.mpr]
      exact fun t ht => by simpa using hne t ht
    · rw [List.filter_cons_of_neg (by simpa using (hne q hq).symm), ih h.2 hq]

theorem filter_under (p : Path) (k : Nat) (cs : Copies) :
    ((cs.under p).filter (·.2 == k)).map (·.1) =
      ((cs.filter (·.2 == k)).map (·.1)).map (p ++ ·) := by
  rw [Copies.under, List.filter_map, List.map_map, List.map_map]
  rfl

/-- **Where the copies of a term are**, with their numbers: everything else has no number of the
contraction. -/
inductive Inserts (c : Contraction) (v : Node) : Node → Copies → Prop
  | copy {k : Nat} : k ∈ c.inserted → k ≠ c.abstraction → k ≠ c.target →
    Inserts c v (v.copy k) [([], k)]
  /-- What is untouched has no copies. -/
  | untouched {n : Node} : (∀ k ∈ n.ids, c.IsPlain k) → Inserts c v n []
  | app {k : Nat} {f a : Node} {ps qs : Copies} : c.IsPlain k →
    Inserts c v f ps → Inserts c v a qs →
    Inserts c v (.app k f a) (ps.under [.left] ++ qs.under [.right])
  | abs {k : Nat} {b : Node} {ps : Copies} (x : String) : c.IsPlain k →
    Inserts c v b ps → Inserts c v (.abs k x b) (ps.under [.body])

namespace Inserts

variable {ps : Copies} {k : Nat}

/-- A copy is not taken for the argument. -/
theorem id_ne_target (h : Inserts c v n ps) : n.id ≠ c.target := by
  cases h with
  | copy _ _ htarget => cases v <;> exact htarget
  | untouched hn => exact (hn _ n.id_mem_ids).ne_target
  | app hk _ _ => exact hk.ne_target
  | abs x hk _ => exact hk.ne_target

/-- **The copies are decorated, and nothing else.** -/
theorem calls_eq (h : Inserts c v n ps) (hv : ∀ k ∈ v.innerIds, c.IsPlain k) :
    n.calls (some c.marks) mark false = ps.map fun q => (q.1, .substituted) := by
  induction h with
  | copy hk hne _ => exact calls_copy hk hne hv
  | untouched hn => exact calls_eq_nil hn
  | @app k f a ps qs hk hf ha ihf iha =>
    rw [calls_app_quiet hk.toIsQuiet f ha.id_ne_target, ihf, iha, List.map_append,
      map_fst_under, map_fst_under]
  | abs x hk _ ih =>
    rw [calls_abs_quiet hk.toIsQuiet, Bool.false_and, ih, map_fst_under]

/-- **A copy stands where it is said to**, and nowhere else. -/
theorem positions_eq (h : Inserts c v n ps) (hv : ∀ k ∈ v.innerIds, c.IsPlain k)
    (hk : k ∈ c.inserted) : n.positions k = (ps.filter (·.2 == k)).map (·.1) := by
  induction h with
  | @copy i _ _ _ =>
    rw [positions_copy fun hmem => (hv k hmem).notMem_inserted hk]
    by_cases hik : i = k <;> simp [hik]
  | untouched hn => exact positions_eq_nil fun hmem => (hn k hmem).notMem_inserted hk
  | @app i f a ps qs hi _ _ ihf iha =>
    have hne : i ≠ k := fun h => hi.notMem_inserted (h ▸ hk)
    rw [positions, if_neg hne, ihf, iha, List.filter_append, List.map_append, filter_under,
      filter_under]
    rfl
  | @abs i b ps x hi _ ih =>
    have hne : i ≠ k := fun h => hi.notMem_inserted (h ▸ hk)
    rw [positions, if_neg hne, ih, filter_under]
    rfl

/-- **A copy with a number of its own stands once in the term.** -/
theorem forall₂_positions (h : Inserts c v n ps) (hv : ∀ k ∈ v.innerIds, c.IsPlain k)
    (hmem : ∀ q ∈ ps, q.2 ∈ c.inserted) (hnodup : (ps.map (·.2)).Nodup) :
    List.Forall₂ (fun k q => n.positions k = [q]) (ps.map (·.2)) (ps.map (·.1)) := by
  rw [List.forall₂_map_left_iff, List.forall₂_map_right_iff, List.forall₂_same]
  intro q hq
  rw [h.positions_eq hv (hmem q hq), filter_eq_singleton hnodup hq,
    List.map_singleton]

end Inserts

/-! ### The copies of a substitution -/

/-- Of the numbers from one on and below another, which are new, the ones that are copies of the
contraction are the given ones. -/
structure Covers (c : Contraction) (next next' : Nat) (copies : List Nat) : Prop where
  ne : ∀ k, next ≤ k → k ≠ c.abstraction ∧ k ≠ c.target
  mem_iff : ∀ k, next ≤ k → k < next' → (k ∈ c.inserted ↔ k ∈ copies)

namespace Covers

variable {copies copies' : List Nat} {i j k : Nat}

theorem isPlain (h : Covers c next next' copies) (hle : next ≤ k) (hlt : k < next')
    (hk : k ∉ copies) : c.IsPlain k :=
  ⟨⟨(h.ne k hle).1, fun hmem => hk ((h.mem_iff k hle hlt).mp hmem)⟩, (h.ne k hle).2⟩

/-- The number that is given after the copies is none of them. -/
theorem isPlain_last (h : Covers c next (k + 1) copies) (hle : next ≤ k)
    (hcopies : ∀ i ∈ copies, i < k) : c.IsPlain k :=
  h.isPlain hle (Nat.lt_succ_self k) fun hk => absurd (hcopies k hk) (Nat.lt_irrefl k)

/-- A part of the new numbers. -/
theorem restrict (h : Covers c next next' copies) (hi : next ≤ i) (hj : j ≤ next')
    (hk : ∀ k, i ≤ k → k < j → (k ∈ copies ↔ k ∈ copies')) : Covers c i j copies' where
  ne k hle := h.ne k (hi.trans hle)
  mem_iff k hle hlt := (h.mem_iff k (hi.trans hle) (hlt.trans_le hj)).trans (hk k hle hlt)

end Covers

/-- **Copies stand where the substitution says**, and nothing else is marked by the contraction that
they are inserted for. -/
theorem exists_inserts {b v : Node} {x : String} {next : Nat} (hb : ∀ k ∈ b.ids, c.IsPlain k)
    (hc : Covers c next (b.substitute v x next).next (b.substitute v x next).copies) :
    ∃ ps : Copies, Inserts c v (b.substitute v x next).node ps ∧
      ps.map (·.1) = (Term.substitute b.erase v.erase x).2 ∧
      ps.map (·.2) = (b.substitute v x next).copies := by
  induction b, v, x, next using substitute_induction with
  | var i y v x next =>
    rw [substitute_var] at hc ⊢
    rw [erase, Term.substitute_var]
    by_cases hyx : y = x
    · rw [if_pos hyx] at hc ⊢
      rw [if_pos hyx]
      have hmem := (hc.mem_iff next (Nat.le_refl next) (Nat.lt_succ_self next)).mpr
        List.mem_cons_self
      have hne := hc.ne next (Nat.le_refl next)
      exact ⟨[([], next)], .copy hmem hne.1 hne.2, rfl, rfl⟩
    · rw [if_neg hyx, if_neg hyx]
      exact ⟨[], .untouched hb, rfl, rfl⟩
  | app i f a v x next ihf iha =>
    have hf := allocates_substitute f v x next
    have ha := allocates_substitute a v x (f.substitute v x next).next
    rw [substitute_app] at hc ⊢
    rw [erase, Term.substitute_app]
    dsimp only at hc ⊢
    have hle := hf.le
    have hle' := ha.le
    have hroot : c.IsPlain (a.substitute v x (f.substitute v x next).next).next := by
      refine hc.isPlain_last (hle.trans hle') fun k hk => ?_
      rcases List.mem_append.mp hk with hk | hk
      · exact (hf.copies k hk).2.trans_le hle'
      · exact (ha.copies k hk).2
    obtain ⟨ps, hps, hpos, hids⟩ := ihf (fun k hk => hb k (List.mem_cons_of_mem _
      (List.mem_append_left _ hk))) (hc.restrict (Nat.le_refl _) (by omega) fun k hge hlt => by
        rw [List.mem_append, or_iff_left fun hk => absurd (ha.copies k hk).1 (by omega)])
    obtain ⟨qs, hqs, hpos', hids'⟩ := iha (fun k hk => hb k (List.mem_cons_of_mem _
      (List.mem_append_right _ hk))) (hc.restrict hle (by omega) fun k hge hlt => by
        rw [List.mem_append, or_iff_right fun hk => absurd (hf.copies k hk).2 (by omega)])
    refine ⟨ps.under [.left] ++ qs.under [.right], .app hroot hps hqs, ?_, ?_⟩
    · rw [List.map_append, fst_under, fst_under, hpos, hpos']
      rfl
    · rw [List.map_append, snd_under, snd_under, hids, hids']
  | ref i n t v x next =>
    rw [substitute_ref, erase, Term.substitute_ref]
    exact ⟨[], .untouched hb, rfl, rfl⟩
  | shadowed i b v x next =>
    rw [substitute_shadowed, erase, Term.substitute_shadowed]
    exact ⟨[], .untouched hb, rfl, rfl⟩
  | kept i y b v x next hyx hy ih =>
    have h := allocates_substitute b v x next
    rw [substitute_kept hyx hy] at hc ⊢
    rw [erase, Term.substitute_kept hyx (v.freeVars_erase ▸ hy)]
    have hroot : c.IsPlain (b.substitute v x next).next :=
      hc.isPlain_last h.le fun k hk => (h.copies k hk).2
    obtain ⟨ps, hps, hpos, hids⟩ := ih (fun k hk => hb k (List.mem_cons_of_mem _ hk))
      (hc.restrict (Nat.le_refl _) (Nat.le_succ _) fun _ _ _ => Iff.rfl)
    refine ⟨ps.under [.body], .abs y hroot hps, ?_, ?_⟩
    · rw [fst_under, hpos]
      rfl
    · rw [snd_under, hids]
  | renamed i y b v x next hyx hy ihb ih =>
    have hrenamed := allocates_substitute b (.var next (freshName y v.freeVars)) y (next + 1)
    have herase := erase_substitute b (.var next (freshName y v.freeVars)) y (next + 1)
    rw [substitute_renamed hyx hy] at hc ⊢
    rw [erase, Term.substitute_renamed hyx (v.freeVars_erase ▸ hy), v.freeVars_erase]
    dsimp only at hc ⊢
    generalize b.substitute (.var next (freshName y v.freeVars)) y (next + 1) = renamed at *
    have h := allocates_substitute renamed.node v x renamed.next
    have hle : next ≤ renamed.next := (Nat.le_succ next).trans hrenamed.le
    have hroot : c.IsPlain (renamed.node.substitute v x renamed.next).next :=
      hc.isPlain_last (hle.trans h.le) fun k hk => (h.copies k hk).2
    -- the new numbers of the renamed body come before those of the copies
    have hbody : ∀ k ∈ renamed.node.ids, c.IsPlain k := by
      intro k hk
      rcases hrenamed.ids k hk with hk | hk | hk
      · exact hb k (List.mem_cons_of_mem _ hk)
      · exact absurd hk List.not_mem_nil
      · refine hc.isPlain ((Nat.le_succ next).trans hk.1) ?_ fun hmem => ?_
        · exact (hk.2.trans_le h.le).trans (Nat.lt_succ_self _)
        · exact absurd hk.2 (h.copies k hmem).1.not_gt
    obtain ⟨ps, hps, hpos, hids⟩ := ih hbody
      (hc.restrict hle (Nat.le_succ _) fun _ _ _ => Iff.rfl)
    refine ⟨ps.under [.body], .abs _ hroot hps, ?_, ?_⟩
    · rw [fst_under, hpos, herase]
      rfl
    · rw [snd_under, hids]

end Node

end LambdaTrace
