import LambdaTrace.Proofs.Reduction.Strong

/-!
# Which redex a strategy contracts

Without macros a strategy is an order in which the positions of a term are visited, and its
step contracts the first redex that it meets. The orders are those of a tree: an application
comes before its two sides, between them or after them, and arguments and bodies are visited
or left out (`LambdaTrace.Traversal`). So there are two descriptions of each strategy: the
recursion over the term, which tries a few alternatives at each application, and the search
through the list of positions that its order makes of the whole term
(`LambdaTrace.Term.visits`). They are the same
(`LambdaTrace.Term.step_eq_findSome?`), by induction on the term, since the list for an
application is put together of the lists for its sides as the alternatives are.

What is visited can be said without the order: every position but those in an argument or in
a body that is left out (`LambdaTrace.Term.mem_visits`). A strategy is stuck where there is no
redex among these, and one that leaves nothing out is stuck at the normal forms only.
-/

namespace LambdaTrace

open Nameless Step

/-! ### Orders -/

/-- When an application is visited. -/
inductive Visit where
  /-- Before its function. -/
  | before
  /-- Between its function and its argument. -/
  | between
  /-- After its argument. -/
  | after
  deriving DecidableEq

/-- **An order** of the positions of a term, and whether it goes into arguments and bodies. -/
structure Traversal where
  visit : Visit
  arguments : Bool
  bodies : Bool
  deriving DecidableEq

/-- The order of a strategy: normal order is preorder, applicative order is in-order, and call
by value is postorder outside the bodies; call by name goes down the functions alone. -/
def Strategy.traversal : Strategy → Traversal
  | .cbv => ⟨.after, true, false⟩
  | .cbn => ⟨.after, false, false⟩
  | .normal => ⟨.before, true, true⟩
  | .applicative => ⟨.between, true, true⟩

namespace Term

/-- The positions of a term in the order in which they are visited. -/
def visits (o : Traversal) : Term → List Path
  | .app f a =>
    let inFn := (f.visits o).map (.left :: ·)
    let inArg := if o.arguments then (a.visits o).map (.right :: ·) else []
    match o.visit with
    | .before => [] :: (inFn ++ inArg)
    | .between => inFn ++ [] :: inArg
    | .after => inFn ++ (inArg ++ [[]])
  | .abs _ b => [] :: if o.bodies then (b.visits o).map (.body :: ·) else []
  | .var _ => [[]]
  | .ref _ _ => [[]]

/-- Whether there is a redex at a position. -/
def IsRedexAt (t : Term) (p : Path) : Prop :=
  ∃ x b a, t.at? p = some (.app (.abs x b) a)

/-- The contraction of the redex at a position, if there is one. -/
def contraction? (t : Term) (p : Path) : Option Step :=
  match t.at? p with
  | some (.app (.abs x b) a) =>
    let r := substitute b a x
    some ⟨t.replaceAt p r.1, p, .beta x b a r.2⟩
  | _ => none

variable {t f a b : Term} {x : String} {p q : Path} {o : Traversal}

/-! ### Redexes at a position -/

theorem isRedexAt_nil : t.IsRedexAt [] ↔ ∃ x b a, t = .app (.abs x b) a := by
  simp only [IsRedexAt, at?_nil, Option.some_inj]

theorem contraction?_eq_none_iff : t.contraction? p = none ↔ ¬t.IsRedexAt p := by
  rw [contraction?, IsRedexAt]
  split
  · next x b a h => simp [h]
  · next hno =>
    simp only [true_iff]
    rintro ⟨x, b, a, h⟩
    exact hno x b a h

theorem isRedexAt_of_contraction? {s : Step} (h : t.contraction? p = some s) :
    t.IsRedexAt p := by
  by_contra hno
  rw [contraction?_eq_none_iff.mpr hno] at h
  cases h

theorem contraction?_app_nil (f a : Term) : (app f a).contraction? [] = contractAt f a := by
  cases f <;> rfl

theorem contraction?_nil_of_not_isApp (h : t.isApp = false) : t.contraction? [] = none := by
  cases t with
  | app f a => cases h
  | _ => rfl

/-- The contraction of a redex of the function is a step of the function. -/
theorem contraction?_left (f a : Term) (p : Path) :
    (app f a).contraction? (.left :: p) = (f.contraction? p).map (·.inFn a) := by
  rw [contraction?, contraction?, show (app f a).at? (.left :: p) = f.at? p from rfl]
  split <;> rfl

theorem contraction?_right (f a : Term) (p : Path) :
    (app f a).contraction? (.right :: p) = (a.contraction? p).map (·.inArg f) := by
  rw [contraction?, contraction?, show (app f a).at? (.right :: p) = a.at? p from rfl]
  split <;> rfl

theorem contraction?_body (x : String) (b : Term) (p : Path) :
    (abs x b).contraction? (.body :: p) = (b.contraction? p).map (·.inBody x) := by
  rw [contraction?, contraction?, show (abs x b).at? (.body :: p) = b.at? p from rfl]
  split <;> rfl

/-! ### The first redex -/

/-- **The contraction of the first redex** in an order. -/
def firstContraction? (o : Traversal) (t : Term) : Option Step :=
  (t.visits o).findSome? t.contraction?

theorem findSome?_contraction?_cons (t : Term) (p : Path) (ps : List Path) :
    (p :: ps).findSome? t.contraction? =
      (t.contraction? p <|> ps.findSome? t.contraction?) := by
  rw [List.findSome?_cons]
  cases t.contraction? p <;> rfl

theorem findSome?_contraction?_append (t : Term) (ps qs : List Path) :
    (ps ++ qs).findSome? t.contraction? =
      (ps.findSome? t.contraction? <|> qs.findSome? t.contraction?) := by
  rw [List.findSome?_append, Option.orElse_eq_orElse, Option.orElse_eq_or]

/-- The first redex among positions that go on from one turn. -/
theorem findSome?_map_turn {turn : Turn} {t u : Term} {wrap : Step → Step}
    (h : ∀ p, t.contraction? (turn :: p) = (u.contraction? p).map wrap) (ps : List Path) :
    (ps.map (turn :: ·)).findSome? t.contraction? =
      (ps.findSome? u.contraction?).map wrap := by
  rw [List.findSome?_map, List.map_findSome?]
  exact congrArg (List.findSome? · ps) (funext h)

/-- **At an application** the alternatives are tried in the order of the visits. -/
theorem firstContraction?_app (o : Traversal) (f a : Term) :
    (app f a).firstContraction? o =
      let inFn := (f.firstContraction? o).map (·.inFn a)
      let inArg := if o.arguments then (a.firstContraction? o).map (·.inArg f) else none
      match o.visit with
      | .before => contractAt f a <|> inFn <|> inArg
      | .between => inFn <|> contractAt f a <|> inArg
      | .after => inFn <|> inArg <|> contractAt f a := by
  have hfn := findSome?_map_turn (contraction?_left f a) (f.visits o)
  have harg : (if o.arguments then (a.visits o).map (.right :: ·) else []).findSome?
      (app f a).contraction? =
        if o.arguments then (a.firstContraction? o).map (·.inArg f) else none := by
    split
    · exact findSome?_map_turn (contraction?_right f a) (a.visits o)
    · rfl
  have hroot : [[]].findSome? (app f a).contraction? = contractAt f a := by
    rw [List.findSome?_singleton, contraction?_app_nil]
  rw [firstContraction?, visits]
  cases o.visit <;>
    simp only [findSome?_contraction?_append, findSome?_contraction?_cons, hfn, harg, hroot,
      contraction?_app_nil, firstContraction?]

theorem firstContraction?_abs (o : Traversal) (x : String) (b : Term) :
    (abs x b).firstContraction? o =
      if o.bodies then (b.firstContraction? o).map (·.inBody x) else none := by
  rw [firstContraction?, visits, findSome?_contraction?_cons, contraction?_nil_of_not_isApp rfl]
  cases o.bodies with
  | true => exact findSome?_map_turn (contraction?_body x b) (b.visits o)
  | false => rfl

/-! ### What is visited -/

theorem mem_visits_app : p ∈ (app f a).visits o ↔ p = [] ∨ (∃ q ∈ f.visits o, .left :: q = p) ∨
    (o.arguments = true ∧ ∃ q ∈ a.visits o, .right :: q = p) := by
  rw [visits]
  cases o.visit <;> cases o.arguments <;> simp [or_comm, or_left_comm]

theorem mem_visits_abs : p ∈ (abs x b).visits o ↔
    p = [] ∨ (o.bodies = true ∧ ∃ q ∈ b.visits o, .body :: q = p) := by
  rw [visits]
  cases o.bodies <;> simp

/-- **The positions that are visited** are all but those in an argument or in a body that the
order leaves out. -/
theorem mem_visits : p ∈ t.visits o ↔ (t.at? p).isSome = true ∧
    (.right ∈ p → o.arguments = true) ∧ (.body ∈ p → o.bodies = true) := by
  induction t generalizing p with
  | app f a ihf iha =>
    rw [mem_visits_app]
    rcases p with _ | ⟨_ | _ | _, p⟩
    · simp [at?_nil]
    · simp [at?, ihf]
    · simp only [at?, iha, reduceCtorEq, List.cons.injEq, false_and, and_false, exists_const,
        true_and, exists_eq_right, false_or, List.mem_cons, true_or, forall_const]
      tauto
    · simp [at?]
  | abs x b ih =>
    rw [mem_visits_abs]
    rcases p with _ | ⟨_ | _ | _, p⟩
    · simp [at?_nil]
    · simp [at?]
    · simp [at?]
    · simp only [at?, ih, reduceCtorEq, List.cons.injEq, true_and, exists_eq_right, false_or,
        List.mem_cons, true_or, forall_const]
      tauto
  | _ =>
    rw [visits, List.mem_singleton]
    rcases p with _ | ⟨turn, p⟩
    · simp [at?_nil]
    · rw [at?_cons_of_children_eq_nil rfl]
      simp

/-- **There is no first redex** where there is none at all. -/
theorem firstContraction?_eq_none_iff :
    t.firstContraction? o = none ↔ ∀ p ∈ t.visits o, ¬t.IsRedexAt p := by
  rw [firstContraction?, List.findSome?_eq_none_iff]
  exact forall₂_congr fun p _ => contraction?_eq_none_iff

/-- Going down from the function of a redex, only its body has redexes. -/
theorem not_isRedexAt_left (h : t.IsRedexAt []) (hp : .body ∉ p) : ¬t.IsRedexAt (.left :: p) := by
  obtain ⟨x, b, a, rfl⟩ := isRedexAt_nil.mp h
  rintro ⟨y, c, d, hp'⟩
  rcases p with _ | ⟨_ | _ | _, p⟩
  · cases hp'
  · cases hp'
  · cases hp'
  · exact hp List.mem_cons_self

/-- **There is one redex at most on the spine**, which goes down the functions. -/
theorem eq_of_isRedexAt (hp : t.IsRedexAt p) (hq : t.IsRedexAt q)
    (hpspine : .right ∉ p ∧ .body ∉ p) (hqspine : .right ∉ q ∧ .body ∉ q) : p = q := by
  induction p generalizing t q with
  | nil =>
    rcases q with _ | ⟨_ | _ | _, q⟩
    · rfl
    · exact absurd hq (not_isRedexAt_left hp (List.not_mem_of_not_mem_cons hqspine.2))
    · exact absurd List.mem_cons_self hqspine.1
    · exact absurd List.mem_cons_self hqspine.2
  | cons turn p ih =>
    have hpspine' := hpspine.imp List.not_mem_of_not_mem_cons List.not_mem_of_not_mem_cons
    obtain rfl : turn = .left := by
      cases turn with
      | left => rfl
      | right => exact absurd List.mem_cons_self hpspine.1
      | body => exact absurd List.mem_cons_self hpspine.2
    rcases q with _ | ⟨_ | _ | _, q⟩
    · exact absurd hp (not_isRedexAt_left hq hpspine'.2)
    · cases t with
      | app f a =>
        exact congrArg (.left :: ·) (ih hp hq hpspine'
          (hqspine.imp List.not_mem_of_not_mem_cons List.not_mem_of_not_mem_cons))
      | _ =>
        obtain ⟨x, b, a, h⟩ := hp
        cases h
    · exact absurd List.mem_cons_self hqspine.1
    · exact absurd List.mem_cons_self hqspine.2

/-! ### Normal forms -/

/-- An application has its own redex and those of its parts. -/
theorem forall_not_isRedexAt_app : (∀ p, ¬(app f a).IsRedexAt p) ↔
    ¬(app f a).IsRedexAt [] ∧ (∀ p, ¬f.IsRedexAt p) ∧ ∀ p, ¬a.IsRedexAt p := by
  constructor
  · exact fun h => ⟨h [], fun p => h (.left :: p), fun p => h (.right :: p)⟩
  · rintro ⟨hroot, hf, ha⟩ (_ | ⟨_ | _ | _, p⟩)
    · exact hroot
    · exact hf p
    · exact ha p
    · rintro ⟨x, b, c, h⟩
      cases h

theorem forall_not_isRedexAt_abs :
    (∀ p, ¬(abs x b).IsRedexAt p) ↔ ∀ p, ¬b.IsRedexAt p := by
  constructor
  · exact fun h p => h (.body :: p)
  · rintro h p ⟨y, c, d, hp⟩
    rcases p with _ | ⟨_ | _ | _, p⟩
    · cases hp
    · cases hp
    · cases hp
    · exact h p ⟨y, c, d, hp⟩

theorem not_isRedexAt_of_children_eq_nil (h : t.children = []) (p : Path) :
    ¬t.IsRedexAt p := by
  rcases p with _ | ⟨turn, p⟩
  · rw [isRedexAt_nil]
    rintro ⟨x, b, a, rfl⟩
    cases h
  · rintro ⟨x, b, a, hp⟩
    rw [at?_cons_of_children_eq_nil h] at hp
    cases hp

/-- **A term is normal** if there is no redex at any of its positions. -/
theorem isNormal_namelessIn_iff (scope : List String) :
    (t.namelessIn scope).IsNormal ↔ ∀ p, ¬t.IsRedexAt p := by
  induction t generalizing scope with
  | app f a ihf iha =>
    rw [namelessIn, isNormal_app, ihf, iha, forall_not_isRedexAt_app, ← contraction?_eq_none_iff,
      contraction?_app_nil]
    refine and_congr_left fun _ => ⟨fun hlam => ?_, fun h => namelessIn_ne_lam h scope⟩
    cases f with
    | abs x b => exact absurd rfl (hlam _)
    | _ => rfl
  | abs x b ih => rw [namelessIn, isNormal_lam, ih, forall_not_isRedexAt_abs]
  | _ =>
    exact iff_of_true (isNormal_of_stepNormal rfl scope) (not_isRedexAt_of_children_eq_nil rfl)

/-! ### Strategies -/

theorem expandFn_eq_none (hf : f.references = []) (a : Term) : expandFn f a = none := by
  cases f with
  | ref n e => exact absurd hf (List.cons_ne_nil n [])
  | _ => rfl

theorem expandArg_eq_none (f : Term) (ha : a.references = []) : expandArg f a = none := by
  cases a with
  | ref n e => exact absurd ha (List.cons_ne_nil n [])
  | _ => rfl

/-- **A step is the contraction of the first redex** in the order of the strategy. -/
theorem step_eq_firstContraction? (strategy : Strategy) (ht : t.references = []) :
    strategy.step t = t.firstContraction? strategy.traversal := by
  induction t with
  | var x => cases strategy <;> rfl
  | ref n e => exact absurd ht (List.cons_ne_nil n [])
  | abs x b ih =>
    rw [firstContraction?_abs, ← ih ht]
    cases strategy <;> rfl
  | app f a ihf iha =>
    obtain ⟨hf, ha⟩ := references_app.mp ht
    rw [firstContraction?_app, ← ihf hf, ← iha ha]
    cases strategy <;>
      simp [Strategy.step, Strategy.traversal, stepValue, stepName, stepNormal,
        stepApplicative, expandFn_eq_none hf, expandArg_eq_none f ha]

end Term

/-- **A strategy contracts the redex that its order prescribes**, from a term without macros:
its step is the contraction of the first redex of those that it visits, which are all but those
in arguments or bodies that it leaves out. It is stuck exactly where none of these is left;
with call by name there is one at most, and with the two strategies that visit everything,
none is left in a normal form. -/
structure Strategy.ContractsFirst (strategy : Strategy) (t : Term) : Prop where
  step : strategy.step t = (t.visits strategy.traversal).findSome? t.contraction?
  visited : ∀ p, p ∈ t.visits strategy.traversal ↔ (t.at? p).isSome = true ∧
    (.right ∈ p → strategy ≠ .cbn) ∧
    (.body ∈ p → strategy = .normal ∨ strategy = .applicative)
  stuck : strategy.step t = none ↔ ∀ p ∈ t.visits strategy.traversal, ¬t.IsRedexAt p
  spine : strategy = .cbn → ∀ p ∈ t.visits strategy.traversal, t.IsRedexAt p →
    strategy.step t = t.contraction? p
  normal : strategy = .normal ∨ strategy = .applicative →
    (strategy.step t = none ↔ t.nameless.IsNormal)

namespace Term

/-- **Each strategy contracts the redex that its order prescribes**, and is stuck if there is
none where it looks. -/
theorem contractsFirst (strategy : Strategy) {t : Term} (ht : t.references = []) :
    strategy.ContractsFirst t := by
  have hstep := step_eq_firstContraction? strategy ht
  have hvisited : ∀ p, p ∈ t.visits strategy.traversal ↔ (t.at? p).isSome = true ∧
      (.right ∈ p → strategy ≠ .cbn) ∧
      (.body ∈ p → strategy = .normal ∨ strategy = .applicative) := by
    intro p
    rw [mem_visits]
    cases strategy <;> simp [Strategy.traversal]
  have hstuck : strategy.step t = none ↔ ∀ p ∈ t.visits strategy.traversal, ¬t.IsRedexAt p := by
    rw [hstep, firstContraction?_eq_none_iff]
  refine ⟨hstep, hvisited, hstuck, ?_, ?_⟩
  · rintro rfl p hp hredex
    have hspine : ∀ q ∈ t.visits Strategy.cbn.traversal, .right ∉ q ∧ .body ∉ q := by
      intro q hq
      obtain ⟨-, hright, hbody⟩ := (hvisited q).mp hq
      exact ⟨fun h => hright h rfl, fun h => by simpa using hbody h⟩
    -- there is a first redex, and it is on the spine
    obtain ⟨s, hs⟩ : ∃ s, Strategy.cbn.step t = some s := by
      rw [← Option.ne_none_iff_exists']
      exact fun hnone => hstuck.mp hnone p hp hredex
    obtain ⟨q, hq, hqs⟩ := List.exists_of_findSome?_eq_some (hstep.symm.trans hs)
    rw [eq_of_isRedexAt hredex (isRedexAt_of_contraction? hqs) (hspine p hp) (hspine q hq), hqs,
      hs]
  · intro hstrong
    rw [hstuck, nameless, isNormal_namelessIn_iff]
    refine ⟨fun h p hredex => h p ?_ hredex, fun h p _ => h p⟩
    obtain ⟨x, b, a, hp⟩ := hredex
    refine (hvisited p).mpr ⟨by rw [hp]; rfl, fun _ => ?_, fun _ => hstrong⟩
    rintro rfl
    simp at hstrong

/-- A redex with another one in its body, and redexes in both arguments. -/
def nestedRedexes : Term :=
  .app
    (.app (.abs "a" (.app (.abs "b" (.var "b")) (.var "a")))
      (.app (.abs "c" (.var "c")) (.var "d")))
    (.app (.abs "e" (.var "e")) (.var "f"))

/-- A variable with two arguments, the first an abstraction that has a redex in its body. -/
def stuckVariable : Term :=
  .app (.app (.var "x") (.abs "a" (.app (.abs "b" (.var "b")) (.var "a"))))
    (.app (.abs "e" (.var "e")) (.var "y"))

/-- The places of the four strategies, in the order in which they are listed. -/
theorem contractsFirst_nestedRedexes : nestedRedexes.references = [] ∧
    stuckVariable.references = [] ∧
    (∀ strategy : Strategy,
      strategy.ContractsFirst nestedRedexes ∧ strategy.ContractsFirst stuckVariable) ∧
    Strategy.all.map (fun strategy => (strategy.step nestedRedexes).map Step.path) =
      [some [.left, .right], some [.left], some [.left], some [.left, .left, .body]] ∧
    Strategy.all.map (fun strategy => (strategy.step stuckVariable).map Step.path) =
      [some [.right], none, some [.left, .right, .body], some [.left, .right, .body]] :=
  ⟨rfl, rfl, fun strategy => ⟨contractsFirst strategy rfl, contractsFirst strategy rfl⟩,
    by decide +kernel, by decide +kernel⟩

end Term

end LambdaTrace
