import LambdaTrace.Proofs.Macros.Recompile
import LambdaTrace.Proofs.Reduction.Runs

/-!
# The terms that a table holds

Closedness is tested when a definition is compiled, on the term as it was written and with
its references counted as closed. That this is enough is a matter of the order in which a
table is made: a definition embeds what its references expand to, which are terms of
definitions before it, and the values found for it are reached by steps, none of which frees
a variable or changes what a reference stands for.

So in a settled table all terms are closed at every depth, and every reference in them, at
every depth, stands for what the table has under its name now
(`LambdaTrace.MacroTable.Settled.sound_of_mem_terms`).
-/

namespace LambdaTrace

namespace Term

/-- A hereditary property holds of a term that is resolved anew if it holds of its
references. -/
theorem Hereditary.resolveBy {P : Term → Prop} (hP : Hereditary P)
    {resolve : String → Option Term} {t : Term} (hknown : t.Known resolve)
    (href : ∀ n ∈ t.references, ∀ e, resolve n = some e → P (.ref n e)) :
    P (t.resolveBy resolve) := by
  induction t with
  | var x => exact hP.var x
  | app f a ihf iha =>
    obtain ⟨hf, ha⟩ := known_app.mp hknown
    exact hP.app.mpr ⟨ihf hf fun n hn => href n (mem_references_app.mpr (Or.inl hn)),
      iha ha fun n hn => href n (mem_references_app.mpr (Or.inr hn))⟩
  | abs x b ih => exact hP.abs.mpr (ih hknown href)
  | ref n t =>
    obtain ⟨e, he⟩ := Option.isSome_iff_exists.mp (known_ref.mp hknown)
    rw [Term.resolveBy, he, Option.getD_some]
    exact href n (List.mem_singleton_self n) e he

end Term

namespace MacroTable

variable {t : MacroTable} {d : Definition}

/-- Whether a reference stands for what the table has under its name, under some strategy. -/
def Current (t : MacroTable) (n : String) (e : Term) : Prop :=
  ∃ strategy, t.resolve strategy n = some e

theorem Current.mem_names {n : String} {e : Term} (h : t.Current n e) : n ∈ t.names := by
  obtain ⟨strategy, h⟩ := h
  exact isSome_resolve_iff.mp (Option.isSome_of_eq_some h)

/-- **A table is made one definition after the other**, so its terms have a property as soon
as a term has it that is read with macros that have it, and steps keep it. -/
theorem Settled.forall_mem_terms (h : t.Settled) {P : Term → Prop}
    (hread : ∀ (u : Term) (strategy : Strategy), u.Readable (t.resolve .normal) →
      u.isClosed = true → (∀ n ∈ u.references, ∀ e, t.resolve strategy n = some e → P e) →
      P (u.resolveBy (t.resolve strategy)))
    (hstep : ∀ (strategy : Strategy) u s, P u → strategy.step u = some s → P s.next) :
    ∀ d ∈ t.definitions, ∀ v ∈ d.terms, P v := by
  intro d hd
  refine h.definition_induction hd fun d hd ih => ?_
  have hmakes : t.Makes d := h.makes d hd
  -- each of the readings has the property, and a value is reached from one of them
  have hreading : ∀ strategy, P (d.unreduced.resolveBy (t.resolve strategy)) := by
    intro strategy
    refine hread _ strategy hmakes.readable hmakes.closed fun m hm e he => ?_
    obtain ⟨c, hc, rfl⟩ := Option.map_eq_some_iff.mp he
    exact ih m hm c hc _ (c.expansionFor_mem_terms strategy)
  have hu : P d.unreduced := hmakes.readable.resolveBy_eq ▸ hreading .normal
  intro v hv
  rw [← hmakes.appraise] at hv
  rcases exists_run_of_mem_terms hv with rfl | ⟨strategy, w, hw, hrun⟩
  · exact hu
  · have hws : P w := by
      rcases hw with rfl | rfl
      · exact hu
      · exact hreading strategy
    exact inv_of_normalForm? (hstep strategy) hws hrun

/-- **All terms of a settled table are sound**: closed at every depth, with references that
stand for what the table has under their names. -/
theorem Settled.sound_of_mem_terms (h : t.Settled) :
    ∀ d ∈ t.definitions, ∀ v ∈ d.terms, v.Sound t.Current := by
  refine h.forall_mem_terms (fun u strategy hread hclosed hrefs => ?_) fun _ _ _ hu => hu.next
  have hknown : u.Known (t.resolve strategy) :=
    fun n hn => isSome_resolve_iff.mpr (isSome_resolve_iff.mp (hread.known n hn))
  refine ⟨by simpa using hclosed, ?_, ?_⟩
  · refine Term.hereditary_refsClosed.resolveBy hknown fun n hn e he => ?_
    exact Term.refsClosed_ref.mpr ⟨(hrefs n hn e he).closed, (hrefs n hn e he).refsClosed⟩
  · refine (Term.hereditary_carries t.Current).resolveBy hknown fun n hn e he => ?_
    exact ⟨⟨strategy, he⟩, (hrefs n hn e he).carries⟩

end MacroTable

end LambdaTrace
