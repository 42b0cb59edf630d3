import LambdaTrace.Proofs.Macros.Resugar
import LambdaTrace.Proofs.Reduction.Frame

/-!
# What naming replaces

Naming goes down a term from the root and stops where it replaces something. So it replaces the
**outermost** parts that have a name, and those only: at a position above which nothing is
replaced, a part with a name has made way for it, and any other part has kept its symbol
(`LambdaTrace.Term.NamesOutermost`). There is one term like that, since what is below a
replaced part is gone and everything else is told by the symbols
(`LambdaTrace.Term.namesOutermost_iff_eq_resugarWith`).

It is less obvious that nothing with a name is left. A part that was kept may be around
one that was replaced, and it is a different term then. But it has the nameless form that it had
once all is unfolded, and it is closed if it was; and to have a name is a matter of that alone
(`LambdaTrace.Candidate.forTerm?_of_resugared`). A part that had no name has none afterwards, and
the references that came in are passed over. So a second time there is nothing to do.
-/

namespace LambdaTrace

namespace Term

/-! ### Outermost parts -/

section Outermost

variable {names : Term → Term → Prop} {t u r f a b : Term} {x : String} {p : Path} {turn : Turn}

/-- A position below the root is a position in one of the parts. -/
theorem at?_cons (t : Term) (turn : Turn) (p : Path) :
    t.at? (turn :: p) = (t.at? [turn]).bind (·.at? p) := by
  cases t with
  | app f a =>
    cases turn with
    | left => exact congrArg (Option.bind · (·.at? p)) (at?_nil f).symm
    | right => exact congrArg (Option.bind · (·.at? p)) (at?_nil a).symm
    | body => rfl
  | abs x b =>
    cases turn with
    | body => exact congrArg (Option.bind · (·.at? p)) (at?_nil b).symm
    | _ => rfl
  | _ => cases turn <;> rfl

/-- A position below a part of the whole is one in the part. -/
theorem at?_cons_of_eq_some {s : Term} (hs : t.at? [turn] = some s) (p : Path) :
    t.at? (turn :: p) = s.at? p := by
  rw [at?_cons, hs, Option.bind_some]

/-- Whether no part above a position has a name, where `names s r` says that the part `s` is to
be replaced by `r`. -/
def Exposed (names : Term → Term → Prop) (t : Term) (p : Path) : Prop :=
  ∀ q s, q <+: p → q ≠ p → t.at? q = some s → ∀ r, ¬names s r

/-- **A term with its outermost parts replaced** by their names, and nothing else changed. -/
structure NamesOutermost (names : Term → Term → Prop) (t u : Term) : Prop where
  replaced : ∀ p s r, Exposed names t p → t.at? p = some s → names s r → u.at? p = some r
  kept : ∀ p s, Exposed names t p → t.at? p = some s → (∀ r, ¬names s r) →
    (u.at? p).map symbol = some s.symbol

theorem exposed_nil (names : Term → Term → Prop) (t : Term) : Exposed names t [] :=
  fun _ _ hq hne => absurd (List.prefix_nil.mp hq) hne

theorem exposed_cons {s : Term} (hs : t.at? [turn] = some s) :
    Exposed names t (turn :: p) ↔ (∀ r, ¬names t r) ∧ Exposed names s p := by
  have hat := at?_cons_of_eq_some hs
  constructor
  · intro h
    refine ⟨h [] t List.nil_prefix (List.cons_ne_nil turn p).symm (at?_nil t), ?_⟩
    intro q w hq hne hw
    exact h (turn :: q) w (List.cons_prefix_cons.mpr ⟨rfl, hq⟩) (by simpa using hne)
      ((hat q).trans hw)
  · rintro ⟨ht, hexposed⟩ q w hq hne hw
    rcases List.prefix_cons_iff.mp hq with rfl | ⟨q', rfl, hq'⟩
    · rw [at?_nil] at hw
      exact Option.some.inj hw ▸ ht
    · exact hexposed q' w hq' (by simpa using hne) ((hat q').symm.trans hw)

/-- If the whole term has a name, this is all there is to replace. -/
theorem namesOutermost_iff_of_names (h : names t r) (hdet : ∀ r', names t r' → r' = r) :
    NamesOutermost names t u ↔ u = r := by
  -- nothing but the root is exposed
  have hroot : ∀ p s, Exposed names t p → t.at? p = some s → p = [] ∧ s = t := by
    intro p s hp hs
    have hnil : p = [] := by
      by_contra hne
      exact hp [] t List.nil_prefix (Ne.symm hne) (at?_nil t) r h
    rw [hnil, at?_nil] at hs
    exact ⟨hnil, (Option.some.inj hs).symm⟩
  constructor
  · intro hu
    have hwhole := hu.replaced [] t r (exposed_nil names t) (at?_nil t) h
    rw [at?_nil] at hwhole
    exact Option.some.inj hwhole
  · rintro rfl
    constructor
    · intro p s r' hp hs hr'
      obtain ⟨rfl, rfl⟩ := hroot p s hp hs
      rw [hdet r' hr', at?_nil]
    · intro p s hp hs hno
      obtain ⟨rfl, rfl⟩ := hroot p s hp hs
      exact absurd h (hno u)

/-- If the whole has no name, its parts are dealt with one by one. -/
theorem NamesOutermost.part {s : Term} (hu : NamesOutermost names t u) (h : ∀ r, ¬names t r)
    (hs : t.at? [turn] = some s) :
    ∃ s', u.at? [turn] = some s' ∧ NamesOutermost names s s' := by
  have hbelow : ∀ p, Exposed names s p → Exposed names t (turn :: p) :=
    fun p hp => (exposed_cons hs).mpr ⟨h, hp⟩
  have hat := at?_cons_of_eq_some hs
  obtain ⟨s', hs'⟩ : ∃ s', u.at? [turn] = some s' := by
    by_cases hname : ∃ r, names s r
    · obtain ⟨r, hr⟩ := hname
      exact ⟨r, hu.replaced [turn] s r (hbelow [] (exposed_nil names s)) hs hr⟩
    · have hkept := hu.kept [turn] s (hbelow [] (exposed_nil names s)) hs (not_exists.mp hname)
      obtain ⟨s', hs', -⟩ := Option.map_eq_some_iff.mp hkept
      exact ⟨s', hs'⟩
  have hat' := at?_cons_of_eq_some hs'
  refine ⟨s', hs', fun p w r hp hw hr => ?_, fun p w hp hw hno => ?_⟩
  · exact hat' p ▸ hu.replaced (turn :: p) w r (hbelow p hp) ((hat p).trans hw) hr
  · exact hat' p ▸ hu.kept (turn :: p) w (hbelow p hp) ((hat p).trans hw) hno

/-- Conversely, this and the root are all there is. -/
theorem namesOutermost_of_parts (h : ∀ r, ¬names t r) (hroot : u.symbol = t.symbol)
    (hparts : ∀ turn s, t.at? [turn] = some s →
      ∃ s', u.at? [turn] = some s' ∧ NamesOutermost names s s') : NamesOutermost names t u := by
  -- what is at a position below the root is in one of the parts
  have hpart : ∀ turn p w, t.at? (turn :: p) = some w → ∃ s s', t.at? [turn] = some s ∧
      s.at? p = some w ∧ u.at? (turn :: p) = s'.at? p ∧ NamesOutermost names s s' := by
    intro turn p w hw
    rw [at?_cons] at hw
    obtain ⟨s, hs, hw⟩ := Option.bind_eq_some_iff.mp hw
    obtain ⟨s', hs', hout⟩ := hparts turn s hs
    exact ⟨s, s', hs, hw, at?_cons_of_eq_some hs' p, hout⟩
  constructor
  · rintro (_ | ⟨turn, p⟩) w r hp hw hr
    · rw [at?_nil] at hw
      exact absurd hr (Option.some.inj hw ▸ h r)
    · obtain ⟨s, s', hs, hw, hat, hout⟩ := hpart turn p w hw
      exact hat ▸ hout.replaced p w r ((exposed_cons hs).mp hp).2 hw hr
  · rintro (_ | ⟨turn, p⟩) w hp hw hno
    · rw [at?_nil] at hw ⊢
      rw [← Option.some.inj hw, ← hroot]
      rfl
    · obtain ⟨s, s', hs, hw, hat, hout⟩ := hpart turn p w hw
      exact hat ▸ hout.kept p w ((exposed_cons hs).mp hp).2 hw hno

theorem namesOutermost_iff_of_not (h : ∀ r, ¬names t r) : NamesOutermost names t u ↔
    u.symbol = t.symbol ∧ ∀ turn s, t.at? [turn] = some s →
      ∃ s', u.at? [turn] = some s' ∧ NamesOutermost names s s' := by
  refine ⟨fun hu => ⟨?_, fun turn s hs => hu.part h hs⟩, fun ⟨hroot, hparts⟩ =>
    namesOutermost_of_parts h hroot hparts⟩
  have hroot := hu.kept [] t (exposed_nil names t) (at?_nil t) h
  rw [at?_nil] at hroot
  exact Option.some.inj hroot

theorem namesOutermost_app (h : ∀ r, ¬names (.app f a) r) : NamesOutermost names (.app f a) u ↔
    ∃ g b, u = .app g b ∧ NamesOutermost names f g ∧ NamesOutermost names a b := by
  rw [namesOutermost_iff_of_not h]
  constructor
  · rintro ⟨hroot, hparts⟩
    cases u with
    | app g b =>
      have hf := hparts .left f (at?_nil f)
      have ha := hparts .right a (at?_nil a)
      simp only [at?, at?_nil, Option.some.injEq, exists_eq_left'] at hf ha
      exact ⟨g, b, rfl, hf, ha⟩
    | _ => cases hroot
  · rintro ⟨g, b, rfl, hf, ha⟩
    refine ⟨rfl, fun turn s hs => ?_⟩
    cases turn with
    | left =>
      rw [at?, at?_nil] at hs
      exact ⟨g, at?_nil g, Option.some.inj hs ▸ hf⟩
    | right =>
      rw [at?, at?_nil] at hs
      exact ⟨b, at?_nil b, Option.some.inj hs ▸ ha⟩
    | body => cases hs

theorem namesOutermost_abs (h : ∀ r, ¬names (.abs x b) r) : NamesOutermost names (.abs x b) u ↔
    ∃ c, u = .abs x c ∧ NamesOutermost names b c := by
  rw [namesOutermost_iff_of_not h]
  constructor
  · rintro ⟨hroot, hparts⟩
    cases u with
    | abs y c =>
      have hb := hparts .body b (at?_nil b)
      simp only [at?, at?_nil, Option.some.injEq, exists_eq_left'] at hb
      obtain rfl : y = x := Symbol.abs.inj hroot
      exact ⟨c, rfl, hb⟩
    | _ => cases hroot
  · rintro ⟨c, rfl, hb⟩
    refine ⟨rfl, fun turn s hs => ?_⟩
    cases turn with
    | body =>
      rw [at?, at?_nil] at hs
      exact ⟨c, at?_nil c, Option.some.inj hs ▸ hb⟩
    | _ => cases hs

/-- A term without parts is kept if it has no name. -/
theorem namesOutermost_of_children_eq_nil (ht : t.children = []) (h : ∀ r, ¬names t r) :
    NamesOutermost names t u ↔ u = t := by
  rw [namesOutermost_iff_of_not h]
  constructor
  · rintro ⟨hroot, -⟩
    cases t with
    | var x => cases u <;> simp_all [symbol]
    | ref n e => cases u <;> simp_all [symbol]
    | _ => cases ht
  · rintro rfl
    refine ⟨rfl, fun turn s hs => ?_⟩
    rw [at?_cons_of_children_eq_nil ht] at hs
    cases hs

end Outermost

end Term

/-! ### Naming with candidates -/

section Candidates

open Candidate

variable {cs : List Candidate} {strategy : Strategy} {c : Candidate} {t u s f a b : Term}
  {x : String} {p : Path}

/-- **A part that was kept has a name afterwards if it had one before**: it is closed if it was,
and it has the nameless form that it had. -/
theorem Candidate.forTerm?_of_resugared {r : Term × Bool} (h : t.Resugared r)
    (href : r.1.isRef = t.isRef) : forTerm? cs r.1 = forTerm? cs t := by
  have hclosed : r.1.isClosed = t.isClosed := by rw [Term.isClosed, Term.isClosed, h.freeVars]
  have halpha : ∀ v, r.1.alphaEquivalent v = t.alphaEquivalent v :=
    Term.alphaEquivalent_congr h.namelessIn
  rw [forTerm?, forTerm?, href, hclosed]
  simp only [halpha]

namespace Term

/-- **Naming replaces the outermost parts that have a candidate**, and this says all about its
result. -/
theorem namesOutermost_iff_eq_resugarWith {names : Term → Term → Prop}
    (hnames : ∀ s r, names s r ↔ (forTerm? cs s).map (·.reference strategy) = some r) :
    NamesOutermost names t u ↔ u = (t.resugarWith cs strategy).1 := by
  have hno : ∀ {s}, forTerm? cs s = none → ∀ r, ¬names s r := by
    intro s hs r hr
    rw [hnames, hs] at hr
    cases hr
  have hyes : ∀ {s u c}, forTerm? cs s = some c →
      (NamesOutermost names s u ↔ u = c.reference strategy) := by
    intro s u c hs
    have hname : ∀ r, names s r ↔ c.reference strategy = r := by
      intro r
      rw [hnames, hs, Option.map_some, Option.some_inj]
    exact namesOutermost_iff_of_names ((hname _).mpr rfl) fun r hr => ((hname r).mp hr).symm
  fun_induction t.resugarWith cs strategy generalizing u with
  | case1 _ _ h | case3 _ _ _ h | case5 _ _ _ h => exact hyes h
  | case2 x h => exact namesOutermost_of_children_eq_nil rfl (hno h)
  | case4 f a h rf ra =>
    rename_i ihf iha
    rw [namesOutermost_app (hno h)]
    simp only [ihf, iha, exists_eq_right_right, exists_eq_right, rf, ra]
  | case6 x b h rb =>
    rename_i ih
    rw [namesOutermost_abs (hno h)]
    simp only [ih, exists_eq_right, rb]
  | case7 n e => exact namesOutermost_of_children_eq_nil rfl (hno rfl)

/-- The larger part wins, though there is a candidate for what is in it, and the first of two
candidates with one value does. -/
example :
    let value (n : String) (v : Term) : Candidate := ⟨⟨n, none, none, some v, v, 8⟩, v⟩
    ((app (abs "a" (abs "b" (var "b"))) (abs "c" (var "c"))).resugarWith
      [value "I" (abs "x" (var "x")), value "KI" (abs "x" (abs "y" (var "y"))),
        value "J" (abs "y" (var "y"))] .normal).1.pretty = "KI I" := by
  cbv

/-- **Nothing that has a candidate is left** in a term that has been named. -/
theorem forTerm?_eq_none_of_resugarWith (hcs : ∀ c ∈ cs, c.IsValue strategy)
    (h : (t.resugarWith cs strategy).1.at? p = some s) : forTerm? cs s = none := by
  -- a reference has no parts and no candidates
  have href : ∀ {n e p}, (ref n e).at? p = some s → forTerm? cs s = none := by
    intro n e p h
    rcases p with _ | ⟨turn, p⟩
    · exact Option.some.inj h ▸ rfl
    · cases turn <;> cases h
  have hkept : ∀ {t r}, forTerm? cs t = none → t.Resugared r → r.1.isRef = t.isRef →
      r.1.at? [] = some s → forTerm? cs s = none := by
    intro t r ht hr href h
    rw [at?_nil] at h
    rw [← Option.some.inj h, forTerm?_of_resugared hr href, ht]
  fun_induction t.resugarWith cs strategy generalizing p with
  | case1 | case3 | case5 | case7 => exact href h
  | case2 x hnone =>
    rcases p with _ | ⟨turn, p⟩
    · exact hkept hnone (resugared_self _) rfl h
    · cases turn <;> cases h
  | case4 f a hnone =>
    rename_i ihf iha
    rcases p with _ | ⟨turn, p⟩
    · exact hkept hnone ((resugared_resugarWith hcs f).app (resugared_resugarWith hcs a)) rfl h
    · cases turn with
      | left => exact ihf h
      | right => exact iha h
      | body => cases h
  | case6 x b hnone =>
    rename_i ih
    rcases p with _ | ⟨turn, p⟩
    · exact hkept hnone ((resugared_resugarWith hcs b).abs x) rfl h
    · cases turn with
      | body => exact ih h
      | _ => cases h

/-- A term in which nothing has a candidate is returned as it is. -/
theorem resugarWith_eq_self (h : ∀ p s, t.at? p = some s → forTerm? cs s = none) :
    t.resugarWith cs strategy = (t, false) := by
  have hroot : forTerm? cs t = none := h [] t (at?_nil t)
  fun_induction t.resugarWith cs strategy with
  | case1 _ _ hc | case3 _ _ _ hc | case5 _ _ _ hc => cases hc.symm.trans hroot
  | case2 | case7 => rfl
  | case4 f a _ rf ra =>
    rename_i ihf iha
    have hf : rf = (f, false) := ihf (fun p => h (.left :: p)) (h [.left] f (at?_nil f))
    have ha : ra = (a, false) := iha (fun p => h (.right :: p)) (h [.right] a (at?_nil a))
    rw [hf, ha, Bool.or_false]
  | case6 x b _ rb =>
    rename_i ih
    have hb : rb = (b, false) := ih (fun p => h (.body :: p)) (h [.body] b (at?_nil b))
    rw [hb]

/-- Something is replaced if and only if some part has a candidate. -/
theorem resugarWith_changed_iff (hcs : ∀ c ∈ cs, c.IsValue strategy) :
    (t.resugarWith cs strategy).2 = true ↔
      ∃ p s, t.at? p = some s ∧ (forTerm? cs s).isSome = true := by
  constructor
  · intro h
    by_contra hno
    push Not at hno
    have hself : t.resugarWith cs strategy = (t, false) :=
      resugarWith_eq_self fun p s hs => Option.not_isSome_iff_eq_none.mp (hno p s hs)
    rw [hself] at h
    cases h
  · rintro ⟨p, s, hs, hc⟩
    by_contra hno
    have hself : (t.resugarWith cs strategy).1 = t :=
      (resugared_resugarWith hcs t).unchanged (Bool.not_eq_true _ ▸ hno)
    rw [forTerm?_eq_none_of_resugarWith hcs (hself.symm ▸ hs)] at hc
    cases hc

end Term

end Candidates

/-! ### Naming with a table -/

/-- Whether a macro has a value under a strategy, and the term is equivalent to it. -/
def Definition.hasValue (d : Definition) (strategy : Strategy) (s : Term) : Bool :=
  (d.valueFor strategy).any s.alphaEquivalent

theorem Definition.hasValue_iff {d : Definition} {strategy : Strategy} {s : Term} :
    d.hasValue strategy s = true ↔
      ∃ v, d.valueFor strategy = some v ∧ s.alphaEquivalent v = true := by
  rw [hasValue]
  cases d.valueFor strategy <;> simp

namespace MacroTable

variable {t : MacroTable} {strategy : Strategy} {cs : List Candidate} {s r : Term}

/-- **What a part of a term is replaced by**: a closed part that is no reference, by a reference
to the first macro in the order of dependency that has it as its value. -/
def Names (t : MacroTable) (strategy : Strategy) (s r : Term) : Prop :=
  s.isRef = false ∧ s.isClosed = true ∧ ∃ ds d, t.dependencyOrder = .ok ds ∧
    ds.find? (·.hasValue strategy s) = some d ∧ r = .ref d.name (d.expansionFor strategy)

/-- The candidates of a table are what naming goes by. -/
theorem names_iff (h : t.candidates strategy = .ok cs) :
    t.Names strategy s r ↔ (Candidate.forTerm? cs s).map (·.reference strategy) = some r := by
  obtain ⟨ds, horder, rfl⟩ := candidates_eq_ok_iff.mp h
  -- the first candidate belongs to the first macro that has the term as its value
  have hfirst : ∀ c, (ds.filterMap fun d => (d.valueFor strategy).map (Candidate.mk d)).find?
        (fun c => s.alphaEquivalent c.value) = some c ↔
      ds.find? (·.hasValue strategy s) = some c.definition ∧ c.IsValue strategy := by
    intro c
    simp only [List.find?_filterMap, Option.any_map, Option.bind_eq_some_iff,
      Option.map_eq_some_iff]
    constructor
    · rintro ⟨d, hd, v, hv, rfl⟩
      exact ⟨hd, hv⟩
    · rintro ⟨hd, hv⟩
      exact ⟨c.definition, hd, c.value, hv, rfl⟩
  rw [Candidate.forTerm?, Option.map_eq_some_iff]
  constructor
  · rintro ⟨href, hclosed, ds', d, horder', hd, rfl⟩
    obtain rfl : ds = ds' := Except.ok.inj (horder.symm.trans horder')
    have hhas := List.find?_some hd
    obtain ⟨v, hv, -⟩ := Definition.hasValue_iff.mp hhas
    refine ⟨⟨d, v⟩, ?_, rfl⟩
    rw [if_neg (by simp [href, hclosed]), hfirst]
    exact ⟨hd, hv⟩
  · rintro ⟨c, hc, rfl⟩
    split at hc
    · cases hc
    · rename_i hskip
      have hterm : s.isRef = false ∧ s.isClosed = true := by simpa using hskip
      exact ⟨hterm.1, hterm.2, ds, c.definition, horder, ((hfirst c).mp hc).1, rfl⟩

theorem isSome_forTerm?_iff (h : t.candidates strategy = .ok cs) :
    (Candidate.forTerm? cs s).isSome = true ↔ ∃ r, t.Names strategy s r := by
  simp only [names_iff h, Option.map_eq_some_iff, Option.isSome_iff_exists]
  exact ⟨fun ⟨c, hc⟩ => ⟨_, c, hc, rfl⟩, fun ⟨_, c, hc, _⟩ => ⟨c, hc⟩⟩

/-- Some macro is the first as soon as there is any. -/
theorem exists_names_iff {ds : List Definition} (h : t.dependencyOrder = .ok ds) :
    (∃ r, t.Names strategy s r) ↔
      s.isRef = false ∧ s.isClosed = true ∧ ∃ d ∈ ds, d.hasValue strategy s = true := by
  rw [← List.find?_isSome]
  constructor
  · rintro ⟨r, href, hclosed, ds', d, h', hd, -⟩
    obtain rfl : ds = ds' := Except.ok.inj (h.symm.trans h')
    exact ⟨href, hclosed, Option.isSome_of_eq_some hd⟩
  · rintro ⟨href, hclosed, hsome⟩
    obtain ⟨d, hd⟩ := Option.isSome_iff_exists.mp hsome
    exact ⟨_, href, hclosed, ds, d, h, hd, rfl⟩

/-- **Naming is complete and idempotent**, in every table that can be reached, under every
strategy and for every term.

It succeeds. What it returns is the term with its outermost parts replaced that have a name, and
no other term is. It says that something was changed exactly if some part of the term has a name.
In what it returns no closed part but a reference is equivalent to the value of any macro, so that
to name it again changes nothing. -/
theorem resugar_outermost_afterAll (budget : Nat) (requests : List Request) (strategy : Strategy)
    (term : Term) :
    let t := (empty budget).afterAll requests
    ∃ u changed, t.resugar strategy term = .ok (u, changed) ∧
      (∀ u', Term.NamesOutermost (t.Names strategy) term u' ↔ u' = u) ∧
      (changed = true ↔ ∃ p s r, term.at? p = some s ∧ t.Names strategy s r) ∧
      (∀ p s, u.at? p = some s → s.isRef = false → s.isClosed = true →
        ∀ d ∈ t.definitions, d.hasValue strategy s = false) ∧
      t.resugar strategy u = .ok (u, false) := by
  intro t
  have horder : t.dependencyOrder = .ok t.definitions :=
    ((settled_empty budget).isMade.afterAll requests).dependencyOrder_eq
  obtain ⟨cs, hcs⟩ : ∃ cs, t.candidates strategy = .ok cs :=
    ⟨_, candidates_eq_ok_iff.mpr ⟨_, horder, rfl⟩⟩
  have hresugar : ∀ w, t.resugar strategy w = .ok (w.resugarWith cs strategy) := by
    intro w
    rw [resugar, hcs]
    rfl
  have hvalue : ∀ c ∈ cs, c.IsValue strategy := isValue_of_mem_candidates hcs
  have hleft : ∀ p s, (term.resugarWith cs strategy).1.at? p = some s →
      Candidate.forTerm? cs s = none :=
    fun p s => Term.forTerm?_eq_none_of_resugarWith hvalue
  refine ⟨_, _, hresugar term, ?_, ?_, ?_, ?_⟩
  · exact fun u' => Term.namesOutermost_iff_eq_resugarWith fun s r => names_iff hcs
  · rw [Term.resugarWith_changed_iff hvalue]
    simp only [isSome_forTerm?_iff hcs, exists_and_left]
  · intro p s hs href hclosed d hd
    by_contra hhas
    have hname : ∃ r, t.Names strategy s r :=
      (exists_names_iff horder).mpr ⟨href, hclosed, d, hd, Bool.not_eq_false _ ▸ hhas⟩
    have hsome := (isSome_forTerm?_iff hcs).mpr hname
    rw [hleft p s hs] at hsome
    cases hsome
  · rw [hresugar, Term.resugarWith_eq_self hleft]

end MacroTable

end LambdaTrace
