import LambdaTrace.Proofs.Substitution.FreeVars
import LambdaTrace.Sharing.Follow

/-!
# The numbers of nodes

A term as it is read has a number of its own at every node (`LambdaTrace.Node.label`,
`LambdaTrace.Node.IsDistinct`). A substitution keeps the numbers of what it does not touch, and all
other numbers that it gives are new ones, which grow from left to right
(`LambdaTrace.Node.Allocates`). So a copy has its number to itself, although what is below its root
is shared by all copies.

Substitution on numbered nodes is the substitution of `LambdaTrace.Term.substitute` when the
numbers are forgotten (`LambdaTrace.Node.erase_substitute`), and its induction is the same.
-/

namespace LambdaTrace

namespace Node

/-- The numbers of the nodes of a term, each root before its parts. What a reference stands for is
no part of the term. -/
def ids : Node → List Nat
  | .var i _ => [i]
  | .app i f a => i :: (f.ids ++ a.ids)
  | .abs i _ b => i :: b.ids
  | .ref i _ _ => [i]

/-- The numbers of the nodes below the root. -/
def innerIds (n : Node) : List Nat :=
  n.ids.tail

theorem ids_eq_cons (n : Node) : n.ids = n.id :: n.innerIds := by
  cases n <;> rfl

theorem mem_ids_iff {n : Node} {k : Nat} : k ∈ n.ids ↔ k = n.id ∨ k ∈ n.innerIds := by
  rw [ids_eq_cons, List.mem_cons]

theorem mem_ids_of_mem_innerIds {n : Node} {k : Nat} (hk : k ∈ n.innerIds) : k ∈ n.ids :=
  mem_ids_iff.mpr (Or.inr hk)

theorem id_mem_ids (n : Node) : n.id ∈ n.ids :=
  mem_ids_iff.mpr (Or.inl rfl)

theorem ids_copy (i : Nat) (n : Node) : (n.copy i).ids = i :: n.innerIds := by
  cases n <;> rfl

theorem positions_eq_nil {n : Node} {k : Nat} (hk : k ∉ n.ids) : n.positions k = [] := by
  induction n with
  | var i x => exact if_neg (Ne.symm (List.mem_singleton.not.mp hk))
  | app i f a ihf iha =>
    rw [ids, List.mem_cons, List.mem_append, not_or, not_or] at hk
    rw [positions, if_neg (Ne.symm hk.1), ihf hk.2.1, iha hk.2.2]
    rfl
  | abs i x b ih =>
    rw [ids, List.mem_cons, not_or] at hk
    rw [positions, if_neg (Ne.symm hk.1), ih hk.2]
    rfl
  | ref i n t => exact if_neg (Ne.symm (List.mem_singleton.not.mp hk))

theorem positions_copy {n : Node} {k : Nat} (hk : k ∉ n.innerIds) (i : Nat) :
    (n.copy i).positions k = if i = k then [[]] else [] := by
  cases n with
  | var j x => rfl
  | app j f a =>
    have hf : k ∉ f.ids := fun h => hk (List.mem_append_left _ h)
    have ha : k ∉ a.ids := fun h => hk (List.mem_append_right _ h)
    rw [copy, positions, positions_eq_nil hf, positions_eq_nil ha]
    simp
  | abs j x b =>
    rw [copy, positions, positions_eq_nil hk]
    exact List.append_nil _
  | ref j n t => rfl

/-- **Whether all nodes are distinct**, with numbers below the next one to be given. -/
structure IsDistinct (n : Node) (next : Nat) : Prop where
  nodup : n.ids.Nodup
  lt : ∀ k ∈ n.ids, k < next

namespace IsDistinct

variable {n f a b : Node} {x : String} {i next : Nat}

theorem fn (h : (Node.app i f a).IsDistinct next) : f.IsDistinct next :=
  ⟨(List.nodup_append.mp (List.nodup_cons.mp h.nodup).2).1,
    fun k hk => h.lt k (List.mem_cons_of_mem _ (List.mem_append_left _ hk))⟩

theorem arg (h : (Node.app i f a).IsDistinct next) : a.IsDistinct next :=
  ⟨(List.nodup_append.mp (List.nodup_cons.mp h.nodup).2).2.1,
    fun k hk => h.lt k (List.mem_cons_of_mem _ (List.mem_append_right _ hk))⟩

theorem body (h : (Node.abs i x b).IsDistinct next) : b.IsDistinct next :=
  ⟨(List.nodup_cons.mp h.nodup).2, fun k hk => h.lt k (List.mem_cons_of_mem _ hk)⟩

/-- No node is in both parts of an application. -/
theorem notMem_arg (h : (Node.app i f a).IsDistinct next) {k : Nat} (hk : k ∈ f.ids) :
    k ∉ a.ids :=
  (List.nodup_append'.mp (List.nodup_cons.mp h.nodup).2).2.2 hk

/-- The root is not below itself. -/
theorem id_notMem (h : n.IsDistinct next) : n.id ∉ n.innerIds := by
  have hnodup := h.nodup
  rw [ids_eq_cons, List.nodup_cons] at hnodup
  exact hnodup.1

end IsDistinct

/-! ### Numbering a term -/

section Label

variable {known : String → Option Node} {next : Nat}

theorem le_label (known : String → Option Node) (t : Term) (next : Nat) :
    next ≤ (label known next t).2 := by
  induction t generalizing next with
  | var x => exact Nat.le_succ next
  | app f a ihf iha => exact ((ihf next).trans (iha _)).trans (Nat.le_succ _)
  | abs x b ih => exact (ih next).trans (Nat.le_succ _)
  | ref n t ih =>
    rw [label]
    split
    · exact Nat.le_succ next
    · exact (ih next).trans (Nat.le_succ _)

theorem le_of_mem_ids_label {t : Term} {k : Nat} (hk : k ∈ (label known next t).1.ids) :
    next ≤ k ∧ k < (label known next t).2 := by
  induction t generalizing next with
  | var x =>
    rw [label, ids, List.mem_singleton] at hk
    rw [label]
    exact ⟨hk.ge, hk ▸ Nat.lt_succ_self next⟩
  | app f a ihf iha =>
    have hf := le_label known f next
    have ha := le_label known a (label known next f).2
    rw [label, ids, List.mem_cons, List.mem_append] at hk
    rw [label]
    rcases hk with rfl | hk | hk
    · exact ⟨hf.trans ha, Nat.lt_succ_self _⟩
    · exact ⟨(ihf hk).1, ((ihf hk).2.trans_le ha).trans (Nat.lt_succ_self _)⟩
    · exact ⟨hf.trans (iha hk).1, (iha hk).2.trans (Nat.lt_succ_self _)⟩
  | abs x b ih =>
    have hb := le_label known b next
    rw [label, ids, List.mem_cons] at hk
    rw [label]
    rcases hk with rfl | hk
    · exact ⟨hb, Nat.lt_succ_self _⟩
    · exact ⟨(ih hk).1, (ih hk).2.trans (Nat.lt_succ_self _)⟩
  | ref n t ih =>
    have ht := le_label known t next
    rw [label] at hk ⊢
    split at hk
    · rw [ids, List.mem_singleton] at hk
      exact ⟨hk.ge, hk ▸ Nat.lt_succ_self next⟩
    · rw [ids, List.mem_singleton] at hk
      exact ⟨hk ▸ ht, hk ▸ Nat.lt_succ_self _⟩

theorem nodup_ids_label (t : Term) : (label known next t).1.ids.Nodup := by
  induction t generalizing next with
  | var x => exact List.nodup_singleton next
  | app f a ihf iha =>
    rw [label, ids, List.nodup_cons, List.nodup_append', List.mem_append]
    refine ⟨?_, ihf, iha, fun k hkf hka => ?_⟩
    · rintro (hk | hk)
      · have hlt := (le_of_mem_ids_label hk).2
        have hle := le_label known a (label known next f).2
        omega
      · exact absurd (le_of_mem_ids_label hk).2 (Nat.lt_irrefl _)
    · have hlt := (le_of_mem_ids_label hkf).2
      have hle := (le_of_mem_ids_label hka).1
      omega
  | abs x b ih =>
    rw [label, ids, List.nodup_cons]
    exact ⟨fun hk => absurd (le_of_mem_ids_label hk).2 (Nat.lt_irrefl _), ih⟩
  | ref n t ih =>
    rw [label]
    split <;> exact List.nodup_singleton _

/-- **A term that is numbered afresh has distinct nodes**, whatever is known of its references. -/
theorem isDistinct_label (known : String → Option Node) (next : Nat) (t : Term) :
    (label known next t).1.IsDistinct (label known next t).2 :=
  ⟨nodup_ids_label t, fun _ hk => (le_of_mem_ids_label hk).2⟩

end Label

/-! ### Substitution on numbered nodes -/

section Equations

variable {x y : String} {v : Node}

theorem substitute_var (i : Nat) (y : String) (v : Node) (x : String) (next : Nat) :
    substitute (.var i y) v x next =
      if y = x then ⟨v.copy next, [next], next + 1⟩ else ⟨.var i y, [], next⟩ := by
  rw [substitute, substituteSized]
  split <;> rfl

theorem substitute_app (i : Nat) (f a v : Node) (x : String) (next : Nat) :
    substitute (.app i f a) v x next =
      let rf := f.substitute v x next
      let ra := a.substitute v x rf.next
      ⟨.app ra.next rf.node ra.node, rf.copies ++ ra.copies, ra.next + 1⟩ := by
  rw [substitute, substituteSized]
  rfl

theorem substitute_ref (i : Nat) (n : String) (t v : Node) (x : String) (next : Nat) :
    substitute (.ref i n t) v x next = ⟨.ref i n t, [], next⟩ := by
  rw [substitute, substituteSized]

theorem substitute_shadowed (i : Nat) (b v : Node) (x : String) (next : Nat) :
    substitute (.abs i x b) v x next = ⟨.abs i x b, [], next⟩ := by
  rw [substitute, substituteSized, if_pos rfl]

theorem substitute_kept (hyx : y ≠ x) (hy : y ∉ v.freeVars) (i : Nat) (b : Node) (next : Nat) :
    substitute (.abs i y b) v x next =
      let r := b.substitute v x next
      ⟨.abs r.next y r.node, r.copies, r.next + 1⟩ := by
  rw [substitute, substituteSized, if_neg hyx, if_neg (by simpa using hy)]
  rfl

theorem substitute_renamed (hyx : y ≠ x) (hy : y ∈ v.freeVars) (i : Nat) (b : Node) (next : Nat) :
    substitute (.abs i y b) v x next =
      let z := freshName y v.freeVars
      let renamed := b.substitute (.var next z) y (next + 1)
      let r := renamed.node.substitute v x renamed.next
      ⟨.abs r.next z r.node, r.copies, r.next + 1⟩ := by
  rw [substitute, substituteSized, if_neg hyx, if_pos (by simpa using hy)]
  rfl

end Equations

/-- Renaming keeps the size of a body. -/
theorem size_substitute_var (b : Node) (i : Nat) (z y : String) (next : Nat) :
    (b.substitute (.var i z) y next).node.size = b.size :=
  eq_of_copied_one (b.substituteSized (.var i z) y next).2

/-- **Induction along substitution** on numbered nodes. -/
@[elab_as_elim]
theorem substitute_induction {motive : Node → Node → String → Nat → Prop}
    (var : ∀ i y v x next, motive (.var i y) v x next)
    (app : ∀ i f a v x next, motive f v x next → motive a v x (f.substitute v x next).next →
      motive (.app i f a) v x next)
    (ref : ∀ i n t v x next, motive (.ref i n t) v x next)
    (shadowed : ∀ i b v x next, motive (.abs i x b) v x next)
    (kept : ∀ i y b v x next, y ≠ x → y ∉ v.freeVars → motive b v x next →
      motive (.abs i y b) v x next)
    (renamed : ∀ i y b v x next, y ≠ x → y ∈ v.freeVars →
      motive b (.var next (freshName y v.freeVars)) y (next + 1) →
      motive (b.substitute (.var next (freshName y v.freeVars)) y (next + 1)).node v x
        (b.substitute (.var next (freshName y v.freeVars)) y (next + 1)).next →
      motive (.abs i y b) v x next)
    (b v : Node) (x : String) (next : Nat) : motive b v x next :=
  match b with
  | .var i y => var i y v x next
  | .app i f a =>
    app i f a v x next (substitute_induction var app ref shadowed kept renamed f v x next)
      (substitute_induction var app ref shadowed kept renamed a v x _)
  | .ref i n t => ref i n t v x next
  | .abs i y b =>
    if hyx : y = x then hyx ▸ shadowed i b v y next
    else if hy : y ∈ v.freeVars then
      renamed i y b v x next hyx hy
        (substitute_induction var app ref shadowed kept renamed b _ y _)
        (substitute_induction var app ref shadowed kept renamed _ v x _)
    else
      kept i y b v x next hyx hy
        (substitute_induction var app ref shadowed kept renamed b v x next)
termination_by b.size
decreasing_by
  all_goals simp only [size, size_substitute_var]
  all_goals omega

/-- **Without the numbers it is the substitution on terms.** -/
theorem erase_substitute (b v : Node) (x : String) (next : Nat) :
    (b.substitute v x next).node.erase = (Term.substitute b.erase v.erase x).1 := by
  induction b, v, x, next using substitute_induction with
  | var i y v x next =>
    rw [substitute_var, erase, Term.substitute_var]
    by_cases hyx : y = x
    · rw [if_pos hyx, if_pos hyx, erase_copy]
    · rw [if_neg hyx, if_neg hyx, erase]
  | app i f a v x next ihf iha =>
    rw [substitute_app, erase, erase, Term.substitute_app]
    exact congrArg₂ Term.app ihf iha
  | ref i n t v x next => rw [substitute_ref, erase, Term.substitute_ref]
  | shadowed i b v x next => rw [substitute_shadowed, erase, Term.substitute_shadowed]
  | kept i y b v x next hyx hy ih =>
    rw [substitute_kept hyx hy, erase, erase, Term.substitute_kept hyx (v.freeVars_erase ▸ hy)]
    exact congrArg (Term.abs y) ih
  | renamed i y b v x next hyx hy ihb ih =>
    rw [substitute_renamed hyx hy, erase, erase,
      Term.substitute_renamed hyx (v.freeVars_erase ▸ hy), v.freeVars_erase]
    rw [ihb] at ih
    exact congrArg (Term.abs _) ih

/-! ### New numbers -/

/-- **What a substitution numbers**: the numbers that are not those of the body, or of what is below
the root of the inserted term, are new; the copies have some of them, which grow from left to
right. -/
structure Allocates (b v : Node) (next : Nat) (r : Substituted) : Prop where
  le : next ≤ r.next
  copies : ∀ k ∈ r.copies, next ≤ k ∧ k < r.next
  sorted : r.copies.Pairwise (· < ·)
  ids : ∀ k ∈ r.node.ids, k ∈ b.ids ∨ k ∈ v.innerIds ∨ next ≤ k ∧ k < r.next

namespace Allocates

variable {b f a v w : Node} {next : Nat} {r r' : Substituted}

/-- What is not touched keeps its numbers. -/
theorem untouched (b v : Node) (next : Nat) : Allocates b v next ⟨b, [], next⟩ :=
  ⟨Nat.le_refl next, fun _ hk => absurd hk List.not_mem_nil, .nil, fun _ hk => Or.inl hk⟩

/-- A copy has a new number at its root, and those of the inserted term below. -/
theorem copy (b v : Node) (next : Nat) :
    Allocates b v next ⟨v.copy next, [next], next + 1⟩ where
  le := Nat.le_succ next
  copies k hk := by
    rw [List.mem_singleton.mp hk]
    exact ⟨Nat.le_refl next, Nat.lt_succ_self next⟩
  sorted := List.pairwise_singleton _ next
  ids k hk := by
    rw [ids_copy, List.mem_cons] at hk
    rcases hk with rfl | hk
    · exact Or.inr (Or.inr ⟨Nat.le_refl k, Nat.lt_succ_self k⟩)
    · exact Or.inr (Or.inl hk)

theorem app (i : Nat) (hf : Allocates f v next r) (ha : Allocates a v r.next r') :
    Allocates (.app i f a) v next
      ⟨.app r'.next r.node r'.node, r.copies ++ r'.copies, r'.next + 1⟩ where
  le := (hf.le.trans ha.le).trans (Nat.le_succ _)
  copies k hk := by
    have hle := hf.le
    have hle' := ha.le
    dsimp only
    rcases List.mem_append.mp hk with hk | hk
    · have := hf.copies k hk
      omega
    · have := ha.copies k hk
      omega
  sorted := List.pairwise_append.mpr ⟨hf.sorted, ha.sorted, fun k hk l hl =>
    (hf.copies k hk).2.trans_le (ha.copies l hl).1⟩
  ids k hk := by
    rw [Node.ids, List.mem_cons, List.mem_append] at hk ⊢
    rcases hk with rfl | hk | hk
    · exact Or.inr (Or.inr ⟨hf.le.trans ha.le, Nat.lt_succ_self _⟩)
    · rcases hf.ids k hk with hk | hk | hk
      · exact Or.inl (Or.inr (Or.inl hk))
      · exact Or.inr (Or.inl hk)
      · exact Or.inr (Or.inr ⟨hk.1, (hk.2.trans_le ha.le).trans (Nat.lt_succ_self _)⟩)
    · rcases ha.ids k hk with hk | hk | hk
      · exact Or.inl (Or.inr (Or.inr hk))
      · exact Or.inr (Or.inl hk)
      · exact Or.inr (Or.inr ⟨hf.le.trans hk.1, hk.2.trans (Nat.lt_succ_self _)⟩)

theorem abs (i : Nat) (y z : String) (h : Allocates b v next r) :
    Allocates (.abs i y b) v next ⟨.abs r.next z r.node, r.copies, r.next + 1⟩ where
  le := h.le.trans (Nat.le_succ _)
  copies k hk := ⟨(h.copies k hk).1, (h.copies k hk).2.trans (Nat.lt_succ_self _)⟩
  sorted := h.sorted
  ids k hk := by
    rw [Node.ids, List.mem_cons] at hk ⊢
    rcases hk with rfl | hk
    · exact Or.inr (Or.inr ⟨h.le, Nat.lt_succ_self _⟩)
    · rcases h.ids k hk with hk | hk | hk
      · exact Or.inl (Or.inr hk)
      · exact Or.inr (Or.inl hk)
      · exact Or.inr (Or.inr ⟨hk.1, hk.2.trans (Nat.lt_succ_self _)⟩)

/-- A renamed body has new numbers where a variable was renamed, and on the way there. -/
theorem renamed (hw : w.innerIds = []) (h : Allocates b w (next + 1) r)
    (h' : Allocates r.node v r.next r') : Allocates b v next r' where
  le := (Nat.le_succ next).trans (h.le.trans h'.le)
  copies k hk := ⟨(Nat.le_succ next).trans (h.le.trans (h'.copies k hk).1), (h'.copies k hk).2⟩
  sorted := h'.sorted
  ids k hk := by
    rcases h'.ids k hk with hk | hk | hk
    · rcases h.ids k hk with hk | hk | hk
      · exact Or.inl hk
      · exact absurd (hw ▸ hk) List.not_mem_nil
      · exact Or.inr (Or.inr ⟨(Nat.le_succ next).trans hk.1, hk.2.trans_le h'.le⟩)
    · exact Or.inr (Or.inl hk)
    · exact Or.inr (Or.inr ⟨(Nat.le_succ next).trans (h.le.trans hk.1), hk.2⟩)

end Allocates

theorem allocates_substitute (b v : Node) (x : String) (next : Nat) :
    Allocates b v next (b.substitute v x next) := by
  induction b, v, x, next using substitute_induction with
  | var i y v x next =>
    rw [substitute_var]
    by_cases hyx : y = x
    · rw [if_pos hyx]
      exact .copy (.var i y) v next
    · rw [if_neg hyx]
      exact .untouched (.var i y) v next
  | app i f a v x next ihf iha =>
    rw [substitute_app]
    exact .app i ihf iha
  | ref i n t v x next =>
    rw [substitute_ref]
    exact .untouched (.ref i n t) v next
  | shadowed i b v x next =>
    rw [substitute_shadowed]
    exact .untouched (.abs i x b) v next
  | kept i y b v x next hyx hy ih =>
    rw [substitute_kept hyx hy]
    exact .abs i y y ih
  | renamed i y b v x next hyx hy ihb ih =>
    rw [substitute_renamed hyx hy]
    exact .abs i y _ (.renamed rfl ihb ih)

end Node

end LambdaTrace
