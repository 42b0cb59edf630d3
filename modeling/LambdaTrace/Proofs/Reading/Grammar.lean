import LambdaTrace.Macros.Table
import LambdaTrace.Proofs.Reading.Tokens
import Mathlib.Algebra.BigOperators.Group.List.Basic
import Mathlib.Tactic.Linarith

/-!
# The grammar of terms

What the readers accept, said without them: a text is cut into tokens, and the tokens are
derived by the rules

    expr ::= term+
    term ::= "..." | name | macro | lambda name "." expr | "(" expr ")"

These rules alone are ambiguous, since what follows an abstraction may belong to its body or
not. `LambdaTrace.Derives` therefore also says what follows the derived tokens, and takes a
condition on the body of an abstraction and what follows it. With the condition that always
holds the rules are the ones above. With `LambdaTrace.Longest`, by which no longer stretch of
tokens would have been an expression too, a body extends as far to the right as it can. No
expression is lost by that (`LambdaTrace.Derives.exists_longest`), and what is left is one tree
for each: the one that is read (`LambdaTrace.MacroTable.parse_eq_ok_iff_derives`).

A reader stops where no term starts, and so at a closing parenthesis, at a dot or at the
end. That it could not have gone on by the rules either is a matter of counting: in what is
derived, as many parentheses and heads of abstractions are closed as opened, and never more
on the way (`LambdaTrace.Balanced`).
-/

namespace LambdaTrace

/-! ### The rules -/

/-- What the rules derive. -/
inductive Category where
  | expr
  | term
  deriving DecidableEq

/-- **The rules of the grammar**: the tokens, what follows them, and the tree of the
derivation. Applications associate to the left. -/
inductive Derives (resolve : String → Option Term) (fits : List Token → List Token → Prop) :
    Category → List Token → List Token → Term → Prop
  | dots (follow) : Derives resolve fits .term [.dots] follow Term.dots
  | var (x follow) : Derives resolve fits .term [.name x] follow (.var x)
  | ref {n : String} {e : Term} (follow) : resolve n = some e →
    Derives resolve fits .term [.macroName n] follow (.ref n e)
  | abs {ts follow : List Token} {b : Term} (x) : Derives resolve fits .expr ts follow b →
    fits ts follow →
    Derives resolve fits .term (.lambda :: .name x :: .dot :: ts) follow (.abs x b)
  | parens {ts follow : List Token} {t : Term} :
    Derives resolve fits .expr ts (.closeParen :: follow) t →
    Derives resolve fits .term (.openParen :: (ts ++ [.closeParen])) follow t
  | single {ts follow : List Token} {t : Term} : Derives resolve fits .term ts follow t →
    Derives resolve fits .expr ts follow t
  | app {ts us follow : List Token} {f a : Term} :
    Derives resolve fits .expr ts (us ++ follow) f → Derives resolve fits .term us follow a →
    Derives resolve fits .expr (ts ++ us) follow (.app f a)

/-- **Whether an expression is as long as it can be**: by the rules alone, no longer stretch
of the tokens is one. -/
def Longest (resolve : String → Option Term) (ts follow : List Token) : Prop :=
  ∀ us rest u, follow = us ++ rest → us ≠ [] →
    ¬Derives resolve (fun _ _ => True) .expr (ts ++ us) rest u

section Rules

variable {resolve : String → Option Term} {fits fits' : List Token → List Token → Prop}
  {c : Category} {ts us follow : List Token} {t : Term}

/-- Fewer conditions allow for more derivations. -/
theorem Derives.mono (hfits : ∀ ts follow, fits ts follow → fits' ts follow)
    (h : Derives resolve fits c ts follow t) : Derives resolve fits' c ts follow t := by
  induction h with
  | dots follow => exact .dots follow
  | var x follow => exact .var x follow
  | ref follow he => exact .ref follow he
  | abs x _ hfit ih => exact .abs x ih (hfits _ _ hfit)
  | parens _ ih => exact .parens ih
  | single _ ih => exact .single ih
  | app _ _ ihf iha => exact .app ihf iha

theorem Derives.ne_nil (h : Derives resolve fits c ts follow t) : ts ≠ [] := by
  induction h with
  | single _ ih => exact ih
  | app _ _ ihf _ => exact List.append_ne_nil_of_left_ne_nil ihf _
  | _ => exact List.cons_ne_nil _ _

/-- A sign of abstraction is followed by a binder and a dot. -/
theorem Derives.of_lambda (h : Derives resolve fits c (.lambda :: us) follow t) :
    ∃ x vs, us = .name x :: .dot :: vs := by
  generalize hts : Token.lambda :: us = ts at h
  induction h generalizing us with
  | @abs ts follow b x _ _ _ => exact ⟨x, ts, (List.cons.inj hts).2⟩
  | single _ ih => exact ih hts
  | @app ts vs follow f a hf _ ihf _ =>
    obtain ⟨k, ts', rfl⟩ := List.exists_cons_of_ne_nil hf.ne_nil
    obtain ⟨rfl, rfl⟩ := List.cons.inj hts
    obtain ⟨x, ws, rfl⟩ := ihf rfl
    exact ⟨x, ws ++ vs, rfl⟩
  | dots _ => cases (List.cons.inj hts).1
  | var _ _ => cases (List.cons.inj hts).1
  | ref _ _ => cases (List.cons.inj hts).1
  | parens _ _ => cases (List.cons.inj hts).1

end Rules

/-! ### Balance -/

/-- What a token adds to what is open: a parenthesis, or the head of an abstraction. -/
def Token.weight : Token → Int
  | .lambda | .openParen => 1
  | .dot | .closeParen => -1
  | _ => 0

/-- What tokens leave open. -/
def weight (ts : List Token) : Int :=
  (ts.map Token.weight).sum

/-- **Balanced tokens** leave nothing open, and on the way nothing is closed that was not
opened. -/
structure Balanced (ts : List Token) : Prop where
  weight_eq : weight ts = 0
  weight_nonneg : ∀ pre post, ts = pre ++ post → 0 ≤ weight pre

section Balance

variable {ts us : List Token} {k : Token}

@[simp] theorem weight_cons (k : Token) (ts : List Token) :
    weight (k :: ts) = k.weight + weight ts := by
  simp [weight]

@[simp] theorem weight_nil : weight [] = 0 := rfl

@[simp] theorem weight_append (ts us : List Token) : weight (ts ++ us) = weight ts + weight us := by
  simp [weight]

theorem balanced_of_weight_eq_zero (hk : k.weight = 0) : Balanced [k] where
  weight_eq := by rw [weight_cons, hk, weight_nil, add_zero]
  weight_nonneg pre post h := by
    rcases List.singleton_eq_append_iff.mp h with ⟨rfl, -⟩ | ⟨rfl, -⟩
    · exact le_refl 0
    · rw [weight_cons, hk, weight_nil, add_zero]

theorem Balanced.append (ht : Balanced ts) (hu : Balanced us) : Balanced (ts ++ us) where
  weight_eq := by rw [weight_append, ht.weight_eq, hu.weight_eq, add_zero]
  weight_nonneg pre post h := by
    rcases List.append_eq_append_iff.mp h with ⟨pre', rfl, hus⟩ | ⟨post', hts, -⟩
    · rw [weight_append, ht.weight_eq, zero_add]
      exact hu.weight_nonneg pre' post hus
    · exact ht.weight_nonneg pre post' hts

/-- What is balanced may stand in between. -/
theorem Balanced.enclose (ht : Balanced ts) {o c : Token} (ho : o.weight = 1)
    (hc : c.weight = -1) : Balanced (o :: (ts ++ [c])) where
  weight_eq := by
    rw [weight_cons, weight_append, ht.weight_eq, weight_cons, ho, hc, weight_nil]
    rfl
  weight_nonneg pre post h := by
    rcases List.cons_eq_append_iff.mp h with ⟨rfl, -⟩ | ⟨pre', rfl, h'⟩
    · exact le_refl 0
    · rw [weight_cons, ho]
      rcases List.append_eq_append_iff.mp h' with ⟨us, rfl, hus⟩ | ⟨post', hts, -⟩
      · rw [weight_append, ht.weight_eq]
        rcases List.singleton_eq_append_iff.mp hus with ⟨rfl, -⟩ | ⟨rfl, -⟩
        · simp
        · simp [hc]
      · have hpre := ht.weight_nonneg pre' post' hts
        omega

/-- **What is derived is balanced.** -/
theorem Derives.balanced {resolve : String → Option Term}
    {fits : List Token → List Token → Prop} {c : Category} {follow : List Token} {t : Term}
    (h : Derives resolve fits c ts follow t) : Balanced ts := by
  induction h with
  | dots _ => exact balanced_of_weight_eq_zero rfl
  | var _ _ => exact balanced_of_weight_eq_zero rfl
  | ref _ _ => exact balanced_of_weight_eq_zero rfl
  | abs x _ _ ih =>
    have hhead : Balanced [.lambda, .name x, .dot] :=
      (balanced_of_weight_eq_zero (k := .name x) rfl).enclose rfl rfl
    exact hhead.append ih
  | parens _ ih => exact ih.enclose rfl rfl
  | single _ ih => exact ih
  | app _ _ ihf iha => exact ihf.append iha

/-- **An expression is as long as it can be** where a token follows that only closes. -/
theorem Derives.longest {resolve : String → Option Term}
    {fits : List Token → List Token → Prop} {c : Category} {follow : List Token} {t : Term}
    (h : Derives resolve fits c ts follow t) (hfollow : ∀ k ∈ follow.head?, k.weight = -1) :
    Longest resolve ts follow := by
  intro us rest u hsplit hne hu
  obtain ⟨k, us', rfl⟩ := List.exists_cons_of_ne_nil hne
  have hk : k.weight = -1 := hfollow k (by rw [hsplit]; rfl)
  have hnonneg := hu.balanced.weight_nonneg (ts ++ [k]) us' (by simp)
  rw [weight_append, h.balanced.weight_eq, weight_cons, hk, weight_nil] at hnonneg
  omega

end Balance

/-! ### Every expression has a longest tree -/

section Tree

variable {resolve : String → Option Term} {fits : List Token → List Token → Prop}
  {ts us follow : List Token} {t u : Term}

/-- A row of terms may stand behind a row of terms. -/
theorem Derives.append (ht : Derives resolve fits .expr ts (us ++ follow) t)
    (hu : Derives resolve fits .expr us follow u) :
    ∃ v, Derives resolve fits .expr (ts ++ us) follow v := by
  generalize hc : Category.expr = c at hu
  induction hu generalizing ts t with
  | single ha _ => exact ⟨_, .app ht ha⟩
  | @app vs ws follow f a _ ha ihf _ =>
    rw [List.append_assoc] at ht
    obtain ⟨v, hv⟩ := ihf ht rfl
    rw [← List.append_assoc]
    exact ⟨_, .app hv ha⟩
  | _ => cases hc

/-- A row of terms is a term or a term and another row. -/
theorem Derives.exists_first (h : Derives resolve fits .expr ts follow t) :
    ∃ us vs u, ts = us ++ vs ∧ Derives resolve fits .term us (vs ++ follow) u ∧
      (vs = [] ∨ ∃ v, Derives resolve fits .expr vs follow v) := by
  generalize hc : Category.expr = c at h
  induction h with
  | @single ts follow t ht _ => exact ⟨ts, [], t, by simp, ht, Or.inl rfl⟩
  | @app ts ws follow f a _ ha ihf _ =>
    obtain ⟨us, vs, u, rfl, hu, hvs⟩ := ihf rfl
    rw [← List.append_assoc] at hu
    refine ⟨us, vs ++ ws, u, List.append_assoc us vs ws, hu, Or.inr ?_⟩
    rcases hvs with rfl | ⟨v, hv⟩
    · exact ⟨a, .single ha⟩
    · exact hv.append (.single ha)
  | _ => cases hc

/-- **Every expression has a tree with longest bodies**, whatever its tree by the rules
alone: what follows the body of an abstraction can as well be more of it. -/
theorem Derives.exists_longest (h : Derives resolve (fun _ _ => True) .expr ts follow t)
    (hfollow : ∀ k ∈ follow.head?, k.weight = -1) :
    ∃ u, Derives resolve (Longest resolve) .expr ts follow u := by
  induction hlen : ts.length using Nat.strong_induction_on generalizing ts follow t with
  | _ n ih =>
    obtain ⟨us, vs, u, rfl, hu, hvs⟩ := h.exists_first
    -- an atom or parentheses stay as they are, in front of the rest of the row
    have hrow : (∃ w, Derives resolve (Longest resolve) .term us (vs ++ follow) w) →
        ∃ w, Derives resolve (Longest resolve) .expr (us ++ vs) follow w := by
      rintro ⟨w, hw⟩
      rcases hvs with rfl | ⟨v, hv⟩
      · exact ⟨w, by simpa using Derives.single hw⟩
      · have hpos := List.length_pos_iff.mpr hu.ne_nil
        have hlt : vs.length < n := by
          rw [← hlen, List.length_append]
          omega
        obtain ⟨v', hv'⟩ := ih _ hlt hv hfollow rfl
        exact (Derives.single hw).append hv'
    cases hu with
    | dots _ => exact hrow ⟨_, .dots _⟩
    | var x _ => exact hrow ⟨_, .var x _⟩
    | ref _ he => exact hrow ⟨_, .ref _ he⟩
    | @parens ts' _ _ hb =>
      have hlt : ts'.length < n := by
        rw [← hlen]
        simp only [List.length_append, List.length_cons]
        omega
      obtain ⟨w, hw⟩ := ih _ hlt hb (by simp [Token.weight]) rfl
      exact hrow ⟨w, .parens hw⟩
    | @abs ts' _ b x hb _ =>
      -- the rest of the row becomes a part of the body
      have hbody : ∃ w, Derives resolve (fun _ _ => True) .expr (ts' ++ vs) follow w := by
        rcases hvs with rfl | ⟨v, hv⟩
        · exact ⟨b, by simpa using hb⟩
        · exact hb.append hv
      obtain ⟨w, hw⟩ := hbody
      have hlt : (ts' ++ vs).length < n := by
        rw [← hlen]
        simp only [List.length_append, List.length_cons]
        omega
      obtain ⟨w', hw'⟩ := ih _ hlt hw hfollow rfl
      exact ⟨.abs x w', .single (.abs x hw' (hw'.longest hfollow))⟩

end Tree

end LambdaTrace
