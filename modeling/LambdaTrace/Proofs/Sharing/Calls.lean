import LambdaTrace.Proofs.Sharing.Numbers
import LambdaTrace.Proofs.Substitution.Copies
import LambdaTrace.Sharing.Render

/-!
# What is decorated

A printer that keeps a record of the decorations it makes
(`LambdaTrace.Node.recordUnder`) prints the same text, and the record does not depend on the way in
which parts are decorated. Where none of the numbers of a contraction occurs, nothing is decorated
but the occurrences of the variable, if the term stands inside of the abstraction
(`LambdaTrace.Node.calls_of_isPlain`).
-/

namespace LambdaTrace

/-- A decoration that is made: the position of the part, and its kind. -/
abbrev Call := Path × Highlight

/-- A decoration of a part, seen from the node that the part stands in at a position. -/
def Call.under (p : Path) (call : Call) : Call :=
  (p ++ call.1, call.2)

theorem map_under (p : Path) (kind : Highlight) (ps : List Path) :
    (ps.map fun q => ((q, kind) : Call)).map (Call.under p) =
      (ps.map (p ++ ·)).map fun q => (q, kind) := by
  rw [List.map_map, List.map_map]
  rfl

theorem map_under_map_under (p q : Path) (calls : List Call) :
    (calls.map (Call.under q)).map (Call.under p) = calls.map (Call.under (p ++ q)) := by
  rw [List.map_map]
  exact List.map_congr_left fun call _ => congrArg (·, call.2) (List.append_assoc p q call.1).symm

/-- Decorates a text if a condition holds, and keeps a record of that. -/
def Decoration.record (mark : Decoration) (condition : Bool) (kind : Highlight) (p : Path)
    (printed : String × List Call) : String × List Call :=
  if condition then (mark kind printed.1, printed.2 ++ [(p, kind)]) else printed

theorem Decoration.record_fst (mark : Decoration) (condition : Bool) (kind : Highlight) (p : Path)
    (printed : String × List Call) :
    (mark.record condition kind p printed).1 = mark.when condition kind printed.1 := by
  cases condition <;> rfl

theorem Decoration.record_snd (mark : Decoration) (condition : Bool) (kind : Highlight) (p : Path)
    (printed : String × List Call) : (mark.record condition kind p printed).2 =
      printed.2 ++ if condition then [(p, kind)] else [] := by
  cases condition
  · exact (List.append_nil printed.2).symm
  · rfl

namespace Node

/-- The printed node as by `LambdaTrace.Node.renderUnder`, with a record of the decorations in the
order in which they are made. -/
def recordUnder (m : Option Marks) (mark : Decoration) : Node → (bound : Bool) → String × List Call
  | .var i x, bound =>
    mark.record (Marks.isCopy m i) .substituted []
      (mark.record (bound && Marks.isVariable m x) .occurrence [] (x, []))
  | .abs i x b, bound =>
    let inner :=
      if Marks.isAbstraction m i then true else bound && !Marks.isVariable m x
    let binder := mark.record (Marks.isAbstraction m i) .abstraction [] ("λ" ++ x, [])
    let body := b.recordUnder m mark inner
    mark.record (Marks.isCopy m i) .substituted []
      (binder.1 ++ ". " ++ body.1, binder.2 ++ body.2.map (Call.under [.body]))
  | .ref i n _, _ =>
    mark.record (Marks.isCopy m i) .substituted []
      (mark.record (Marks.isReference m i) .reference [] (n, []))
  | .app i f a, bound =>
    let fn := f.recordUnder m mark bound
    let arg := a.recordUnder m mark bound
    let target := mark.record (Marks.isTarget m a.id) .target [.right]
      (parenthesizedIf (a.isApp || a.isAbs) arg.1, arg.2.map (Call.under [.right]))
    mark.record (Marks.isCopy m i) .substituted []
      (parenthesizedIf f.isAbs fn.1 ++ " " ++ target.1, fn.2.map (Call.under [.left]) ++ target.2)

/-- **The record changes nothing.** -/
theorem recordUnder_fst (m : Option Marks) (mark : Decoration) (n : Node) (bound : Bool) :
    (n.recordUnder m mark bound).1 = n.renderUnder m mark bound := by
  induction n generalizing bound with
  | var i x => simp only [recordUnder, renderUnder, Decoration.record_fst]
  | app i f a ihf iha => simp only [recordUnder, renderUnder, Decoration.record_fst, ihf, iha]
  | abs i x b ih => simp only [recordUnder, renderUnder, Decoration.record_fst, ih]
  | ref i n t => simp only [recordUnder, renderUnder, Decoration.record_fst]

/-- The decorations that are made, in their order. -/
def calls (m : Option Marks) (mark : Decoration) (n : Node) (bound : Bool) : List Call :=
  (n.recordUnder m mark bound).2

/-! ### The decorations by cases -/

section Cases

variable (m : Option Marks) (mark : Decoration) (bound : Bool)

theorem calls_var (i : Nat) (x : String) : (Node.var i x).calls m mark bound =
    (if bound && Marks.isVariable m x then [([], .occurrence)] else []) ++
      if Marks.isCopy m i then [([], .substituted)] else [] := by
  simp only [calls, recordUnder, Decoration.record_snd, List.nil_append]

theorem calls_abs (i : Nat) (x : String) (b : Node) : (Node.abs i x b).calls m mark bound =
    (if Marks.isAbstraction m i then [([], .abstraction)] else []) ++
      (b.calls m mark (if Marks.isAbstraction m i then true
        else bound && !Marks.isVariable m x)).map (Call.under [.body]) ++
      if Marks.isCopy m i then [([], .substituted)] else [] := by
  simp only [calls, recordUnder, Decoration.record_snd, List.nil_append]

theorem calls_ref (i : Nat) (n : String) (t : Node) : (Node.ref i n t).calls m mark bound =
    (if Marks.isReference m i then [([], .reference)] else []) ++
      if Marks.isCopy m i then [([], .substituted)] else [] := by
  simp only [calls, recordUnder, Decoration.record_snd, List.nil_append]

theorem calls_app (i : Nat) (f a : Node) : (Node.app i f a).calls m mark bound =
    (f.calls m mark bound).map (Call.under [.left]) ++
      ((a.calls m mark bound).map (Call.under [.right]) ++
        if Marks.isTarget m a.id then [([.right], .target)] else []) ++
      if Marks.isCopy m i then [([], .substituted)] else [] := by
  simp only [calls, recordUnder, Decoration.record_snd]

end Cases

end Node

/-! ### The numbers of a contraction -/

/-- What a contraction is known by: the numbers of the abstraction and of its argument, the
variable, and the numbers of the copies. -/
structure Contraction where
  abstraction : Nat
  target : Nat
  binder : String
  inserted : List Nat

namespace Contraction

/-- The marks of the contraction. -/
def marks (c : Contraction) : Marks :=
  .beta (some c.abstraction) (some c.target) c.binder c.inserted

/-- Whether a node is printed without a decoration. -/
structure IsQuiet (c : Contraction) (k : Nat) : Prop where
  ne_abstraction : k ≠ c.abstraction
  notMem_inserted : k ∉ c.inserted

/-- Whether a node is neither printed with a decoration nor decorated as an argument. -/
structure IsPlain (c : Contraction) (k : Nat) : Prop extends c.IsQuiet k where
  ne_target : k ≠ c.target

variable {c : Contraction} {k : Nat}

theorem isAbstraction_self (c : Contraction) :
    Marks.isAbstraction (some c.marks) c.abstraction = true :=
  beq_self_eq_true c.abstraction

theorem isTarget_self (c : Contraction) : Marks.isTarget (some c.marks) c.target = true :=
  beq_self_eq_true c.target

theorem isCopy_eq_true (h : k ∈ c.inserted) : Marks.isCopy (some c.marks) k = true :=
  List.contains_iff_mem.mpr h

theorem isVariable_marks (c : Contraction) (x : String) :
    Marks.isVariable (some c.marks) x = (x == c.binder) :=
  rfl

theorem IsQuiet.isAbstraction (h : c.IsQuiet k) : Marks.isAbstraction (some c.marks) k = false :=
  beq_false_of_ne h.ne_abstraction

theorem IsQuiet.isCopy (h : c.IsQuiet k) : Marks.isCopy (some c.marks) k = false := by
  simpa [marks, Marks.isCopy] using h.notMem_inserted

theorem isTarget_eq_false (h : k ≠ c.target) : Marks.isTarget (some c.marks) k = false :=
  beq_false_of_ne h

end Contraction

namespace Node

variable {c : Contraction} {mark : Decoration}

section Contraction

variable {i : Nat} {bound : Bool}

/-! ### The decorations of a contraction -/

theorem calls_var_quiet (h : c.IsQuiet i) (x : String) :
    (Node.var i x).calls (some c.marks) mark bound =
      if bound && x == c.binder then [([], .occurrence)] else [] := by
  rw [calls_var, h.isCopy, c.isVariable_marks]
  exact List.append_nil _

theorem calls_ref_quiet (h : c.IsQuiet i) (n : String) (t : Node) :
    (Node.ref i n t).calls (some c.marks) mark bound = [] := by
  rw [calls_ref, h.isCopy]
  rfl

theorem calls_abs_quiet (h : c.IsQuiet i) (x : String) (b : Node) :
    (Node.abs i x b).calls (some c.marks) mark bound =
      (b.calls (some c.marks) mark (bound && x != c.binder)).map (Call.under [.body]) := by
  rw [calls_abs, h.isAbstraction, h.isCopy, c.isVariable_marks]
  exact List.append_nil _

theorem calls_app_quiet (h : c.IsQuiet i) (f : Node) {a : Node} (ha : a.id ≠ c.target) :
    (Node.app i f a).calls (some c.marks) mark bound =
      (f.calls (some c.marks) mark bound).map (Call.under [.left]) ++
        (a.calls (some c.marks) mark bound).map (Call.under [.right]) := by
  rw [calls_app, h.isCopy, Contraction.isTarget_eq_false ha]
  simp

end Contraction

/-- **Where no number of a contraction occurs**, the occurrences of the variable are decorated, if
the term stands inside of the abstraction. -/
theorem calls_of_isPlain {n : Node} (hroot : c.IsQuiet n.id)
    (hinner : ∀ k ∈ n.innerIds, c.IsPlain k) (bound : Bool) :
    n.calls (some c.marks) mark bound =
      if bound then (n.erase.occurrences c.binder).map (·, .occurrence) else [] := by
  induction n generalizing bound with
  | var i x =>
    rw [calls_var_quiet (i := i) hroot, erase, Term.occurrences]
    cases bound with
    | false => rfl
    | true => by_cases hx : x = c.binder <;> simp [hx]
  | app i f a ihf iha =>
    have hf : ∀ k ∈ f.ids, c.IsPlain k := fun k hk => hinner k (List.mem_append_left _ hk)
    have ha : ∀ k ∈ a.ids, c.IsPlain k := fun k hk => hinner k (List.mem_append_right _ hk)
    rw [calls_app_quiet (i := i) hroot f (ha _ a.id_mem_ids).ne_target,
      ihf (hf _ f.id_mem_ids).toIsQuiet fun k hk => hf k (mem_ids_of_mem_innerIds hk),
      iha (ha _ a.id_mem_ids).toIsQuiet fun k hk => ha k (mem_ids_of_mem_innerIds hk),
      erase, Term.occurrences]
    cases bound with
    | false => rfl
    | true => simp only [if_true, map_under, List.map_append, List.singleton_append]
  | abs i x b ih =>
    have hb : ∀ k ∈ b.ids, c.IsPlain k := hinner
    rw [calls_abs_quiet (i := i) hroot,
      ih (hb _ b.id_mem_ids).toIsQuiet fun k hk => hb k (mem_ids_of_mem_innerIds hk),
      erase, Term.occurrences]
    cases bound with
    | false => rfl
    | true => by_cases hx : x = c.binder <;> simp [hx, map_under, -List.map_map]
  | ref i n t ih =>
    rw [calls_ref_quiet (i := i) hroot, erase, Term.occurrences]
    exact (ite_self []).symm

theorem calls_eq_nil {n : Node} (h : ∀ k ∈ n.ids, c.IsPlain k) :
    n.calls (some c.marks) mark false = [] :=
  calls_of_isPlain (h _ n.id_mem_ids).toIsQuiet (fun k hk => h k (mem_ids_of_mem_innerIds hk))
    false

/-- **A copy** is decorated, and what is below its root is not. -/
theorem calls_copy {v : Node} {k : Nat} (hk : k ∈ c.inserted) (hne : k ≠ c.abstraction)
    (hv : ∀ k ∈ v.innerIds, c.IsPlain k) :
    (v.copy k).calls (some c.marks) mark false = [([], .substituted)] := by
  have hcopy : Marks.isCopy (some c.marks) k = true := Contraction.isCopy_eq_true hk
  have habs : Marks.isAbstraction (some c.marks) k = false := beq_false_of_ne hne
  cases v with
  | var i x =>
    rw [copy, calls_var, hcopy]
    rfl
  | app i f a =>
    have hf : ∀ k ∈ f.ids, c.IsPlain k := fun k hk => hv k (List.mem_append_left _ hk)
    have ha : ∀ k ∈ a.ids, c.IsPlain k := fun k hk => hv k (List.mem_append_right _ hk)
    rw [copy, calls_app, hcopy, calls_eq_nil hf, calls_eq_nil ha,
      Contraction.isTarget_eq_false (ha _ a.id_mem_ids).ne_target]
    rfl
  | abs i x b =>
    rw [copy, calls_abs, hcopy, habs, Bool.false_and, if_neg (by simp), if_neg (by simp),
      calls_eq_nil hv]
    rfl
  | ref i n t =>
    rw [copy, calls_ref, hcopy]
    rfl

/-- **The redex of a contraction** has its abstraction decorated, then the occurrences that it
binds, and then its argument. -/
theorem calls_redex {k : Nat} {b a : Node} (hk : c.IsQuiet k) (hcopy : c.abstraction ∉ c.inserted)
    (hb : ∀ k ∈ b.ids, c.IsPlain k) (ha : c.IsQuiet a.id) (hinner : ∀ k ∈ a.innerIds, c.IsPlain k)
    (htarget : a.id = c.target) :
    (Node.app k (.abs c.abstraction c.binder b) a).calls (some c.marks) mark false =
      ([.left], .abstraction) ::
        (b.erase.occurrences c.binder).map (fun q => (.left :: .body :: q, .occurrence)) ++
        [([.right], .target)] := by
  have hbody : b.calls (some c.marks) mark true =
      (b.erase.occurrences c.binder).map (·, .occurrence) :=
    calls_of_isPlain (hb _ b.id_mem_ids).toIsQuiet
      (fun k hk => hb k (mem_ids_of_mem_innerIds hk)) true
  have harg : a.calls (some c.marks) mark false = [] := calls_of_isPlain ha hinner false
  have hfn : (Node.abs c.abstraction c.binder b).calls (some c.marks) mark false =
      ([], .abstraction) ::
        (b.erase.occurrences c.binder).map fun q => (.body :: q, .occurrence) := by
    have hnot : Marks.isCopy (some c.marks) c.abstraction = false := by
      simpa [Contraction.marks, Marks.isCopy] using hcopy
    rw [calls_abs, c.isAbstraction_self, hnot, if_pos rfl, if_pos rfl, hbody, map_under,
      List.map_map]
    exact List.append_nil _
  rw [calls_app, hk.isCopy, htarget, c.isTarget_self, hfn, harg]
  simp [Call.under]

end Node

/-! ### Texts without their decorations -/

/-- **Whether a map takes the decorations off a text** that is put together from decorated
parts. -/
structure Decoration.IsUndone (mark : Decoration) (undo : String → String) : Prop where
  append : ∀ s t, undo (s ++ t) = undo s ++ undo t
  mark : ∀ kind text, undo (mark kind text) = undo text

/-- There is nothing to take off where nothing is decorated. -/
theorem Decoration.isUndone_none : Decoration.none.IsUndone fun text => text :=
  ⟨fun _ _ => rfl, fun _ _ => rfl⟩

namespace Node

theorem isApp_erase (n : Node) : n.erase.isApp = n.isApp := by
  cases n <;> rfl

theorem isAbs_erase (n : Node) : n.erase.isAbs = n.isAbs := by
  cases n <;> rfl

theorem ofList_parenthesized (condition : Bool) (s : List Char) :
    String.ofList (if condition then parenthesized s else s) =
      parenthesizedIf condition (String.ofList s) := by
  cases condition
  · rfl
  · exact String.toList_injective (by simp [parenthesized, parenthesizedIf])

theorem pretty_app (f a : Term) : (Term.app f a).pretty =
    parenthesizedIf f.isAbs f.pretty ++ " " ++ parenthesizedIf (a.isApp || a.isAbs) a.pretty := by
  have hspace : ∀ s, String.ofList (' ' :: s) = " " ++ String.ofList s :=
    fun s => String.toList_injective (by simp)
  rw [Term.pretty, Term.chars, String.ofList_append, hspace, ofList_parenthesized,
    ofList_parenthesized, String.append_assoc]
  rfl

theorem pretty_abs (x : String) (b : Term) :
    (Term.abs x b).pretty = "λ" ++ x ++ ". " ++ b.pretty :=
  String.toList_injective (by simp [Term.pretty, Term.chars])

theorem pretty_var (x : String) : (Term.var x).pretty = x :=
  String.ofList_toList

theorem pretty_ref (n : String) (t : Term) : (Term.ref n t).pretty = n :=
  String.ofList_toList

/-- **Without the decorations it is the printed term**, whatever is decorated. -/
theorem undo_renderUnder {mark : Decoration} {undo : String → String} (h : mark.IsUndone undo)
    (m : Option Marks) (n : Node) (bound : Bool) :
    undo (n.renderUnder m mark bound) = undo n.erase.pretty := by
  have hwhen : ∀ condition kind text, undo (mark.when condition kind text) = undo text := by
    intro condition kind text
    cases condition
    · rfl
    · exact h.mark kind text
  have hparens : ∀ condition s t, undo s = undo t →
      undo (parenthesizedIf condition s) = undo (parenthesizedIf condition t) := by
    intro condition s t hst
    cases condition
    · exact hst
    · rw [parenthesizedIf, parenthesizedIf, if_pos rfl, if_pos rfl, h.append, h.append, h.append,
        h.append, hst]
  induction n generalizing bound with
  | var i x => rw [renderUnder, hwhen, hwhen, erase, pretty_var]
  | app i f a ihf iha =>
    rw [renderUnder, hwhen, h.append, h.append, hwhen, erase, pretty_app, h.append, h.append,
      hparens _ _ _ (ihf bound), hparens _ _ _ (iha bound), isAbs_erase, isAbs_erase, isApp_erase]
  | abs i x b ih =>
    rw [renderUnder, hwhen, h.append, h.append, hwhen, erase, pretty_abs, h.append, h.append,
      h.append, h.append, ih]
  | ref i n t => rw [renderUnder, hwhen, hwhen, erase, pretty_ref]

end Node

end LambdaTrace
