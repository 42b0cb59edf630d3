import LambdaTrace.Proofs.Reduction.Strong
import LambdaTrace.Proofs.Sharing.Copies
import LambdaTrace.Proofs.Substitution.Unextended

/-!
# Highlighting before and after a step

A contraction is shown twice: on the term that it is taken from, where the abstraction, the
occurrences that it binds and the argument are decorated, and on the term that it leads to, where
the copies are. What is decorated is told by the numbers of nodes in the one case and the names of
variables in the other, and the copies are collected by the substitution. They agree: a copy stands
wherever an occurrence was.

A step makes the nodes on the way to its place anew and leaves everything else as it was
(`LambdaTrace.Node.Rebuilds`). So what is true of the redex, and of what it is contracted to, is
true of the two terms when it is seen from further out.
-/

namespace LambdaTrace

namespace Node

variable {c : Contraction} {mark : Decoration} {v n n' : Node} {next next' : Nat}

/-! ### A step from further out -/

/-- **A term with a part replaced**, where the nodes on the way to the part are made anew. -/
inductive Rebuilds (u u' : Node) (next : Nat) : Node → Path → Node → Nat → Prop
  | here : Rebuilds u u' next u [] u' next
  | left {i k : Nat} {f f' : Node} {p : Path} (a : Node) : Rebuilds u u' next f p f' k →
    Rebuilds u u' next (.app i f a) (.left :: p) (.app k f' a) (k + 1)
  | right {i k : Nat} {a a' : Node} {p : Path} (f : Node) : Rebuilds u u' next a p a' k →
    Rebuilds u u' next (.app i f a) (.right :: p) (.app k f a') (k + 1)
  | body {i k : Nat} {b b' : Node} {p : Path} (x : String) : Rebuilds u u' next b p b' k →
    Rebuilds u u' next (.abs i x b) (.body :: p) (.abs k x b') (k + 1)

/-- **A contraction at a place** replaces the redex there by what the substitution makes of the
body. -/
theorem exists_rebuilds {n : Node} {p : Path} {x : String} {B A : Term}
    (h : n.erase.at? p = some (.app (.abs x B) A)) (next : Nat) :
    ∃ (k i : Nat) (b a n' : Node) (next' : Nat), b.erase = B ∧ a.erase = A ∧
      n.follow next p = some (n', .beta (some i) (some a.id) x (b.substitute a x next).copies,
        next') ∧
      Rebuilds (.app k (.abs i x b) a) (b.substitute a x next).node (b.substitute a x next).next
        n p n' next' := by
  induction n generalizing p with
  | app k f a ihf iha =>
    rcases p with _ | ⟨_ | _ | _, p⟩
    · cases f with
      | abs i y b =>
        cases h
        exact ⟨k, i, b, a, _, _, rfl, rfl, rfl, .here⟩
      | _ => cases h
    · obtain ⟨k', i, b, c, f', next', hb, ha, hfollow, hrebuilds⟩ := ihf h
      refine ⟨k', i, b, c, _, _, hb, ha, ?_, hrebuilds.left a⟩
      rw [follow, hfollow]
      rfl
    · obtain ⟨k', i, b, c, a', next', hb, ha, hfollow, hrebuilds⟩ := iha h
      refine ⟨k', i, b, c, _, _, hb, ha, ?_, hrebuilds.right f⟩
      rw [follow, hfollow]
      rfl
    · cases h
  | abs i y b ih =>
    rcases p with _ | ⟨_ | _ | _, p⟩
    · cases h
    · cases h
    · cases h
    · obtain ⟨k', i', c, a, b', next', hc, ha, hfollow, hrebuilds⟩ := ih h
      refine ⟨k', i', c, a, _, _, hc, ha, ?_, hrebuilds.body y⟩
      rw [follow, hfollow]
      rfl
  | _ =>
    rcases p with _ | ⟨turn, p⟩
    · cases h
    · rw [erase, Term.at?_cons_of_children_eq_nil rfl] at h
      cases h

namespace Rebuilds

variable {u u' : Node} {p : Path}

theorem le (h : Rebuilds u u' next n p n' next') : next ≤ next' := by
  induction h with
  | here => exact Nat.le_refl next
  | left a _ ih => exact ih.trans (Nat.le_succ _)
  | right f _ ih => exact ih.trans (Nat.le_succ _)
  | body x _ ih => exact ih.trans (Nat.le_succ _)

theorem erase_eq (h : Rebuilds u u' next n p n' next') :
    n'.erase = n.erase.replaceAt p u'.erase := by
  induction h with
  | here => exact (Term.replaceAt_nil _ _).symm
  | left a _ ih => exact congrArg (Term.app · a.erase) ih
  | right f _ ih => exact congrArg (Term.app f.erase) ih
  | body x _ ih => exact congrArg (Term.abs x) ih

theorem mem_innerIds (h : Rebuilds u u' next n p n' next') {k : Nat} (hk : k ∈ u.innerIds) :
    k ∈ n.innerIds := by
  induction h with
  | here => exact hk
  | left a _ ih => exact List.mem_append_left _ (mem_ids_of_mem_innerIds ih)
  | right f _ ih => exact List.mem_append_right _ (mem_ids_of_mem_innerIds ih)
  | body x _ ih => exact mem_ids_of_mem_innerIds ih

end Rebuilds

/-- **Where a contraction is**: at a redex, whose numbers are those below its root, and with copies
that have new numbers. -/
structure IsAt (c : Contraction) (u : Node) (next next' : Nat) : Prop where
  abstraction : c.abstraction ∈ u.innerIds
  target : c.target ∈ u.innerIds
  inserted : ∀ k ∈ c.inserted, next ≤ k ∧ k < next'

namespace IsAt

variable {u : Node} {k : Nat}

/-- Elsewhere nothing is marked. -/
theorem isPlain (h : IsAt c u next next') (hk : k ∉ u.innerIds) (hlt : k < next) : c.IsPlain k :=
  ⟨⟨fun heq => hk (heq ▸ h.abstraction), fun hmem => absurd (h.inserted k hmem).1 hlt.not_ge⟩,
    fun heq => hk (heq ▸ h.target)⟩

/-- Nor is a node that is made anew later. -/
theorem isPlain_of_le (h : IsAt c u next next') (hu : ∀ k ∈ u.ids, k < next) (hle : next ≤ next')
    (hk : next' ≤ k) : c.IsPlain k := by
  have habs := hu _ (mem_ids_of_mem_innerIds h.abstraction)
  have htarget := hu _ (mem_ids_of_mem_innerIds h.target)
  refine ⟨⟨?_, fun hmem => ?_⟩, ?_⟩
  · omega
  · have := (h.inserted k hmem).2
    omega
  · omega

end IsAt

namespace Rebuilds

variable {u u' : Node} {p : Path} {next₀ : Nat}

/-- No root on the way to the redex is marked, nor is that of the redex. -/
theorem isPlain_id (h : Rebuilds u u' next n p n' next') (hc : IsAt c u next₀ next)
    (hn : n.IsDistinct next₀) : c.IsPlain n.id :=
  hc.isPlain (fun hk => hn.id_notMem (h.mem_innerIds hk)) (hn.lt _ n.id_mem_ids)

/-- Nothing beside a function with the redex is marked. -/
theorem isPlain_arg {i : Nat} {f f' a : Node} (h : Rebuilds u u' next f p f' next')
    (hc : IsAt c u next₀ next) (hn : (Node.app i f a).IsDistinct next₀) {k : Nat}
    (hk : k ∈ a.ids) : c.IsPlain k :=
  hc.isPlain (fun hmem => hn.notMem_arg (mem_ids_of_mem_innerIds (h.mem_innerIds hmem)) hk)
    (hn.arg.lt k hk)

/-- Nothing beside an argument with the redex is marked. -/
theorem isPlain_fn {i : Nat} {f a a' : Node} (h : Rebuilds u u' next a p a' next')
    (hc : IsAt c u next₀ next) (hn : (Node.app i f a).IsDistinct next₀) {k : Nat}
    (hk : k ∈ f.ids) : c.IsPlain k :=
  hc.isPlain (fun hmem => hn.notMem_arg hk (mem_ids_of_mem_innerIds (h.mem_innerIds hmem)))
    (hn.fn.lt k hk)

/-- **Seen from further out** the same parts of the redex are decorated. -/
theorem calls_eq (h : Rebuilds u u' next n p n' next') (hc : IsAt c u next₀ next)
    (hn : n.IsDistinct next₀) :
    n.calls (some c.marks) mark false =
      (u.calls (some c.marks) mark false).map (Call.under p) := by
  induction h with
  | here => exact (List.map_id _).symm
  | @left i k f f' p a hf ih =>
    have hroot : c.IsPlain i := (hf.left a (i := i)).isPlain_id hc hn
    have ha : ∀ k ∈ a.ids, c.IsPlain k := fun k hk => hf.isPlain_arg hc hn hk
    rw [calls_app_quiet hroot.toIsQuiet f (ha _ a.id_mem_ids).ne_target, ih hn.fn,
      calls_eq_nil ha, map_under_map_under]
    exact List.append_nil _
  | @right i k a a' p f ha ih =>
    have hroot : c.IsPlain i := (ha.right f (i := i)).isPlain_id hc hn
    have hf : ∀ k ∈ f.ids, c.IsPlain k := fun k hk => ha.isPlain_fn hc hn hk
    rw [calls_app_quiet hroot.toIsQuiet f (ha.isPlain_id hc hn.arg).ne_target, ih hn.arg,
      calls_eq_nil hf, map_under_map_under]
    rfl
  | @body i k b b' p x hb ih =>
    have hroot : c.IsPlain i := (hb.body x (i := i)).isPlain_id hc hn
    rw [calls_abs_quiet hroot.toIsQuiet, Bool.false_and, ih hn.body, map_under_map_under]
    rfl

/-- **Seen from further out** the same copies are in the term. -/
theorem inserts (h : Rebuilds u u' next n p n' next') (hc : IsAt c u next₀ next)
    (hu : ∀ k ∈ u.ids, k < next₀) (hle : next₀ ≤ next) (hn : n.IsDistinct next₀) {ps : Copies}
    (hu' : Inserts c v u' ps) : Inserts c v n' (ps.under p) := by
  induction h with
  | here =>
    rw [Copies.under]
    exact (List.map_id ps).symm ▸ hu'
  | @left i k f f' p a hf ih =>
    have hroot : c.IsPlain k := hc.isPlain_of_le hu hle hf.le
    have ha : ∀ k ∈ a.ids, c.IsPlain k := fun k hk => hf.isPlain_arg hc hn hk
    have hwhole := Inserts.app hroot (ih hn.fn) (.untouched ha)
    rwa [under_under, under_nil, List.append_nil] at hwhole
  | @right i k a a' p f ha ih =>
    have hroot : c.IsPlain k := hc.isPlain_of_le hu hle ha.le
    have hf : ∀ k ∈ f.ids, c.IsPlain k := fun k hk => ha.isPlain_fn hc hn hk
    have hwhole := Inserts.app hroot (.untouched hf) (ih hn.arg)
    rwa [under_under] at hwhole
  | @body i k b b' p x hb ih =>
    have hwhole := Inserts.abs x (hc.isPlain_of_le hu hle hb.le) (ih hn.body)
    rwa [under_under] at hwhole

end Rebuilds

/-! ### The contraction of a redex -/

section Redex

variable {k i : Nat} {x : String} {b a : Node}

/-- What the contraction of a redex is known by. -/
def contraction (i : Nat) (x : String) (b a : Node) (next : Nat) : Contraction :=
  ⟨i, a.id, x, (b.substitute a x next).copies⟩

theorem notMem_inserted (hk : k < next) : k ∉ (contraction i x b a next).inserted :=
  fun hmem => absurd ((allocates_substitute b a x next).copies k hmem).1 hk.not_ge

theorem isAt_redex : IsAt (contraction i x b a next) (.app k (.abs i x b) a) next
    (b.substitute a x next).next where
  abstraction := List.mem_append_left _ List.mem_cons_self
  target := List.mem_append_right _ a.id_mem_ids
  inserted := (allocates_substitute b a x next).copies

variable (h : (Node.app k (.abs i x b) a).IsDistinct next)

include h

/-- The abstraction is not part of its argument. -/
theorem ne_abstraction {j : Nat} (hj : j ∈ a.ids) : j ≠ i :=
  fun heq => h.notMem_arg (heq ▸ List.mem_cons_self) hj

theorem isPlain_body {j : Nat} (hj : j ∈ b.ids) : (contraction i x b a next).IsPlain j :=
  ⟨⟨fun (heq : j = i) => h.fn.id_notMem (heq ▸ hj), notMem_inserted (h.fn.body.lt j hj)⟩,
    fun (heq : j = a.id) => h.notMem_arg (List.mem_cons_of_mem i (heq ▸ hj)) a.id_mem_ids⟩

theorem isQuiet_arg : (contraction i x b a next).IsQuiet a.id :=
  ⟨ne_abstraction h a.id_mem_ids, notMem_inserted (h.arg.lt _ a.id_mem_ids)⟩

theorem isPlain_inner {j : Nat} (hj : j ∈ a.innerIds) : (contraction i x b a next).IsPlain j :=
  have hmem : j ∈ a.ids := mem_ids_of_mem_innerIds hj
  ⟨⟨ne_abstraction h hmem, notMem_inserted (h.arg.lt j hmem)⟩,
    fun (heq : j = a.id) => h.arg.id_notMem (heq ▸ hj)⟩

theorem covers_redex : Covers (contraction i x b a next) next (b.substitute a x next).next
    (b.substitute a x next).copies where
  ne j hj := by
    have hi := h.fn.lt i List.mem_cons_self
    have ha := h.arg.lt _ a.id_mem_ids
    exact ⟨(hi.trans_le hj).ne', (ha.trans_le hj).ne'⟩
  mem_iff _ _ _ := Iff.rfl

/-- **The redex that is contracted** has its parts decorated. -/
theorem calls_contraction (mark : Decoration) :
    (Node.app k (.abs i x b) a).calls (some (contraction i x b a next).marks) mark false =
      ([.left], .abstraction) ::
        (b.erase.occurrences x).map (fun q => (.left :: .body :: q, .occurrence)) ++
        [([.right], .target)] :=
  have hroot := isAt_redex.isPlain h.id_notMem (h.lt _ List.mem_cons_self)
  calls_redex hroot.toIsQuiet (notMem_inserted (h.fn.lt i List.mem_cons_self))
    (fun _ hj => isPlain_body h hj) (isQuiet_arg h) (fun _ hj => isPlain_inner h hj) rfl

end Redex

theorem Rebuilds.isDistinct {u u' : Node} {p : Path} {next₀ : Nat}
    (h : Rebuilds u u' next n p n' next') (hn : n.IsDistinct next₀) : u.IsDistinct next₀ := by
  induction h with
  | here => exact hn
  | left a _ ih => exact ih hn.fn
  | right f _ ih => exact ih hn.arg
  | body x _ ih => exact ih hn.body

/-- **What is decorated before and after a contraction agrees.** From a term with distinct nodes let
one of the strategies contract a redex faithfully, as it does where every binder that is renamed
gets a name that is neither free in its body nor the variable. In the term, the abstraction is
decorated, then from left to right the occurrences that it binds, and then its argument; in the next
term, the copies are, which have the positions of these occurrences, below the place of the redex.
Each copy has a number that no other node of the next term has. Without their decorations the two
texts are the printed terms. -/
theorem highlights_agree {strategy : Strategy} {n : Node} {next : Nat} {s : Step} {x : String}
    {b a : Term} {copies : List Path} (hn : n.IsDistinct next)
    (hstep : strategy.step n.erase = some s) (he : s.event = .beta x b a copies)
    (hf : s.IsFaithful) : ∃ (n' : Node) (c : Contraction) (next' : Nat),
    n.follow next s.path = some (n', c.marks, next') ∧ n'.erase = s.next ∧ c.binder = x ∧
    List.Forall₂ (fun k q => n'.positions k = [s.path ++ q]) c.inserted (b.occurrences x) ∧
    n.render (some c.marks) .none = n.erase.pretty ∧
    n'.render (some c.marks) .none = s.next.pretty ∧
    ∀ mark : Decoration,
      n.recordUnder (some c.marks) mark false = (n.render (some c.marks) mark,
        (s.path ++ [.left], .abstraction) ::
          (b.occurrences x).map (fun q => (s.path ++ .left :: .body :: q, .occurrence)) ++
          [(s.path ++ [.right], .target)]) ∧
      n'.recordUnder (some c.marks) mark false = (n'.render (some c.marks) mark,
        (b.occurrences x).map fun q => (s.path ++ q, .substituted)) ∧
      ∀ undo, mark.IsUndone undo →
        undo (n.render (some c.marks) mark) = undo n.erase.pretty ∧
          undo (n'.render (some c.marks) mark) = undo s.next.pretty := by
  have hadmits := Term.admits_of_step hstep
  have hfaithful : Term.Faithful b a x := by
    rw [Step.IsFaithful, he] at hf
    exact hf
  obtain ⟨k, i, b, a, n', next', rfl, rfl, hfollow, hrebuilds⟩ :=
    exists_rebuilds (hadmits.at?_path he) next
  have hredex := hrebuilds.isDistinct hn
  have hinner : ∀ j ∈ a.innerIds, (contraction i x b a next).IsPlain j :=
    fun _ hj => isPlain_inner hredex hj
  obtain ⟨ps, hps, hpos, hids⟩ := exists_inserts (fun _ hj => isPlain_body hredex hj)
    (covers_redex hredex)
  rw [hfaithful.copies_eq] at hpos
  have hinserts := hrebuilds.inserts isAt_redex hredex.lt
    (allocates_substitute b a x next).le hn hps
  have herase : n'.erase = s.next := by
    rw [hrebuilds.erase_eq, erase_substitute, hadmits.next_eq_replaceAt, he]
    rfl
  have hundone : ∀ (mark : Decoration) (undo : String → String), mark.IsUndone undo →
      undo (n.render (some (contraction i x b a next).marks) mark) = undo n.erase.pretty ∧
        undo (n'.render (some (contraction i x b a next).marks) mark) = undo s.next.pretty := by
    intro mark undo hundo
    rw [render, render, undo_renderUnder hundo, undo_renderUnder hundo, herase]
    exact ⟨rfl, rfl⟩
  obtain ⟨hbare, hbare'⟩ := hundone .none (fun text => text) Decoration.isUndone_none
  refine ⟨n', contraction i x b a next, next', hfollow, herase, rfl, ?_, hbare, hbare',
    fun mark => ⟨?_, ?_, hundone mark⟩⟩
  · have hunder : (ps.under s.path).map (·.2) = (b.substitute a x next).copies :=
      (snd_under _ _).trans hids
    have hmem : ∀ q ∈ ps.under s.path, q.2 ∈ (b.substitute a x next).copies :=
      fun q hq => hunder ▸ List.mem_map_of_mem hq
    have honce := hinserts.forall₂_positions hinner hmem
      (hunder ▸ (allocates_substitute b a x next).sorted.nodup)
    rw [hunder, fst_under, hpos, List.forall₂_map_right_iff] at honce
    exact honce
  · refine Prod.ext (recordUnder_fst _ _ _ _) ?_
    refine (hrebuilds.calls_eq isAt_redex hn).trans ?_
    rw [calls_contraction hredex mark]
    simp [Call.under, Function.comp_def]
  · refine Prod.ext (recordUnder_fst _ _ _ _) ((hinserts.calls_eq hinner).trans ?_)
    rw [← hpos, Copies.under, List.map_map, List.map_map]
    rfl

/-- A body with a binder that is renamed, and one that hides the variable. -/
def renamingBody : Term :=
  .abs "y" (.app (.app (.var "x") (.abs "x" (.var "x"))) (.var "x"))

/-- A redex with this body, under a binder and beside another term. -/
def renamingTerm : Term :=
  .abs "z" (.app (.var "z") (.app (.abs "x" renamingBody) (.var "y")))

/-- Its contraction. -/
def renamingStep : Step :=
  ⟨.abs "z" (.app (.var "z") (.abs "y0" (.app (.app (.var "y") (.abs "x" (.var "x"))) (.var "y")))),
    [.body, .right], .beta "x" renamingBody (.var "y") [[.body, .left, .left], [.body, .right]]⟩

/-- The term as it is read. -/
def renamingNode : Node × Nat :=
  label (fun _ => Option.none) 0 renamingTerm

example : (renamingNode.1.follow renamingNode.2 renamingStep.path).map (fun (n, marks, _) =>
      (renamingNode.1.render (some marks) .bracket, n.render (some marks) .bracket)) =
    some ("λz. z (([abstraction:λx]. λy. [variable:x] (λx. x) [variable:x]) [target:y])",
      "λz. z (λy0. [substituted:y] (λx. x) [substituted:y])") := by
  decide +kernel

theorem highlights_agree_renamingNode : renamingNode.1.IsDistinct renamingNode.2 ∧
    Strategy.normal.step renamingNode.1.erase = some renamingStep ∧ renamingStep.IsFaithful ∧
    ∃ n' c next', renamingNode.1.follow renamingNode.2 renamingStep.path =
        some (n', Contraction.marks c, next') ∧
      (n'.recordUnder (some c.marks) .bracket false).2 =
        [([.body, .right, .body, .left, .left], .substituted),
          ([.body, .right, .body, .right], .substituted)] := by
  have hdistinct : renamingNode.1.IsDistinct renamingNode.2 := isDistinct_label _ 0 renamingTerm
  have hstep : Strategy.normal.step renamingNode.1.erase = some renamingStep := by decide +kernel
  have hbody : ∀ y ∈ ["y", "x"], ∀ m ∈ ["y", "x", "x", "x", "x"], ¬Extends m y := by
    have hlength : ∀ y ∈ ["y", "x"], ∀ m ∈ ["y", "x", "x", "x", "x"], m.length ≤ y.length := by
      decide
    exact fun y hy m hm hext => absurd hext.length_lt (hlength y hy m hm).not_gt
  have hfaithful : renamingStep.IsFaithful :=
    (Term.unextended_of_names (t := renamingBody) hbody).faithful
      fun y hy => hbody y hy "x" (by decide)
  obtain ⟨n', c, next', hfollow, -, -, -, -, -, hcalls⟩ :=
    highlights_agree hdistinct hstep rfl hfaithful
  refine ⟨hdistinct, hstep, hfaithful, n', c, next', hfollow, ?_⟩
  rw [(hcalls .bracket).2.1]
  dsimp only
  decide

end Node

end LambdaTrace
