import LambdaTrace.Proofs.Reading.Alike
import LambdaTrace.Proofs.Reading.Faults

/-!
# The first bad place

A fault is reported at a place in the text. What stands before it could have been the start of
something that is read, and what stands there could not: however the text goes on behind that
character, the same fault is reported at the same place (`LambdaTrace.FirstBad`). Two characters
are not that telling. A dot may be the first of a placeholder, and a capital letter the first of
another name.

Both halves compare readings of two texts that are alike up to some place. For each rule by which
a part fails it is shown that the part can be completed right before the fault, and that it fails
again. What completes a part of another part completes that one too, perhaps with a closing
parenthesis after it (`LambdaTrace.FirstBad.lift`). So every part that fails, fails at the first
bad place (`LambdaTrace.Fails.failsFirst`), and for whole texts this is
`LambdaTrace.MacroTable.parse_error_place`.
-/

namespace LambdaTrace

variable {resolve : String → Option Term} {part : Part} {fault : Fault}
  {s r r' p w b rest : List Char} {t f : Term}

/-! ### Completing and failing again -/

/-- Where a row of terms has to end there are no more arguments. -/
theorem Closes.reads_args (h : Closes r) : Reads resolve (.args f) r f r := by
  obtain ⟨hblank, hnone⟩ : StopsAt resolve r := stopsAt_of_closes h
  have hdone : Reads resolve (.args f) r f (LambdaTrace.dropBlank r) := .done (by rwa [hblank])
  rwa [hblank] at hdone

theorem reads_x (hb : ∀ c ∈ b, isBlank c = true) (h : Closes r) :
    Reads resolve .term (b ++ ' ' :: 'x' :: r) (.var (String.ofList ['x'])) r := by
  have hx : ∀ c ∈ ['x'], isVarChar c = true := by
    intro c hc
    rw [List.mem_singleton.mp hc]
    decide
  refine .var ?_
  rw [dropBlank_append_of_blank hb]
  exact readRun_append_of_all (by simp) hx (Lexeme.varName.endsAt_of_closes h)

theorem reads_expr_x (hb : ∀ c ∈ b, isBlank c = true) (h : Closes r) :
    Reads resolve .expr (b ++ ' ' :: 'x' :: r) (.var (String.ofList ['x'])) r :=
  .expr (reads_x hb h) h.reads_args

/-- **The first bad place** of a part, given what stands before the place and what is left
there. -/
structure FirstBad (resolve : String → Option Term) (part : Part) (fault : Fault)
    (p rest : List Char) : Prop where
  /-- No blank stands there. -/
  notBlank : StartsOutside isBlank rest
  /-- What stands before can be completed, so that the part may be over then. What completes a
  part from its very start does not join with what is in front of it. -/
  completed : ∃ u, (p = [] → u.head? = some ' ') ∧
    ∀ follow, Closes follow → ∃ t, Reads resolve part (p ++ (u ++ follow)) t follow
  /-- The part fails again if the character stays. -/
  failing : ∀ c r, rest = c :: r → c ≠ '.' → isMacroChar c = false →
    ∀ r', Fails resolve part (p ++ c :: r') fault (c :: r')

/-- A text in which a part fails at the first bad place. -/
def FailsFirst (resolve : String → Option Term) (part : Part) (s : List Char) (fault : Fault)
    (rest : List Char) : Prop :=
  ∃ p, s = p ++ rest ∧ FirstBad resolve part fault p rest

/-- **A part that fails in another** fails at the first bad place of that. The hypotheses say
how the whole is read or fails with the part put into it, and are only asked for texts that start
with lexemes alike. -/
theorem FirstBad.lift {part' : Part} (h : FirstBad resolve part fault p rest) (w close : List Char)
    (hclose : ∀ follow, Closes follow → Closes (close ++ follow))
    (hread : ∀ r' t follow, (∀ k : Lexeme, k.EndsAt (p ++ rest) → k.EndsAt r') →
      Closes follow → Reads resolve part r' t (close ++ follow) →
        ∃ t', Reads resolve part' (w ++ r') t' follow)
    (hfail : ∀ r' left, (∀ k : Lexeme, k.EndsAt (p ++ rest) → k.EndsAt r') →
      Fails resolve part r' fault left → Fails resolve part' (w ++ r') fault left) :
    FirstBad resolve part' fault (w ++ p) rest where
  notBlank := h.notBlank
  completed := by
    obtain ⟨u, hfront, hu⟩ := h.completed
    refine ⟨u ++ close, fun hnil => ?_, fun follow hfollow => ?_⟩
    · rw [List.head?_append, hfront (List.append_eq_nil_iff.mp hnil).2]
      rfl
    · obtain ⟨t, ht⟩ := hu (close ++ follow) (hclose follow hfollow)
      have hlexeme : ∀ k : Lexeme, k.EndsAt (p ++ rest) →
          k.EndsAt (p ++ (u ++ (close ++ follow))) := by
        intro k hk
        cases p with
        | nil =>
          obtain ⟨u, rfl⟩ := List.head?_eq_some_iff.mp (hfront rfl)
          exact k.endsAt_blank _
        | cons c p => exact hk.of_cons _
      simpa using hread _ t follow hlexeme hfollow ht
  failing c r hrest hc hm r' := by
    subst hrest
    rw [List.append_assoc]
    exact hfail _ _ (fun k hk => hk.append fun h => h.of_cons r') (h.failing c r rfl hc hm r')

/-! ### What is missing -/

theorem failsFirst_unknown (hw : Lexeme.macroName.read (dropBlank s) = some (w, r)) :
    FailsFirst resolve .term s .unknownMacro (dropBlank s) := by
  obtain ⟨b, hb, hs, -⟩ := exists_blank_frame s
  refine ⟨b, hs, startsOutside_dropBlank s, ?_, fun c r hrest _ hm => ?_⟩
  · exact ⟨[' ', 'x'], fun _ => rfl, fun follow hfollow => ⟨_, reads_x hb hfollow⟩⟩
  · obtain ⟨-, d, ds, hd, hd'⟩ := of_readRun hw
    rw [hrest] at hd
    obtain ⟨rfl, -⟩ := List.cons.inj hd
    rw [hm] at hd'
    cases hd'

theorem failsFirst_missing (hnone : termAt resolve (dropBlank s) = .ok none) :
    FailsFirst resolve .expr s .expectedTerm (dropBlank s) := by
  obtain ⟨b, hb, hs, hframe⟩ := exists_blank_frame s
  refine ⟨b, hs, startsOutside_dropBlank s, ?_, fun c r hrest hc _ r' => ?_⟩
  · exact ⟨[' ', 'x'], fun _ => rfl, fun follow hfollow => ⟨_, reads_expr_x hb hfollow⟩⟩
  · have hdrop := hframe c r hrest r'
    have hfails : Fails resolve .expr (b ++ c :: r') .expectedTerm (dropBlank (b ++ c :: r')) := by
      refine .missing ?_
      rw [hrest, termAt_cons_eq_none_iff hc] at hnone
      rwa [hdrop, termAt_cons_eq_none_iff hc]
    rwa [hdrop] at hfails

theorem failsFirst_binder (hl : Lexeme.lambda.read (dropBlank s) = some (w, r))
    (hx : Lexeme.varName.read (dropBlank r) = none) :
    FailsFirst resolve .term s .expectedBinder (dropBlank r) := by
  obtain ⟨p, hne, rfl, hp⟩ := Lexeme.exists_frame (by decide) hl
  obtain ⟨b, hb, hr, hframe⟩ := exists_blank_frame r
  refine ⟨p ++ b, by rw [List.append_assoc, ← hr], startsOutside_dropBlank r, ?_, ?_⟩
  · refine ⟨['x', '.', ' ', 'x'], by simp [hne], fun follow hfollow => ?_⟩
    have hbinder : Lexeme.varName.read (dropBlank (b ++ 'x' :: '.' :: ' ' :: 'x' :: follow)) =
        some (['x'], '.' :: ' ' :: 'x' :: follow) := by
      rw [dropBlank_blanks hb (startsOutside_cons (by decide) _)]
      rfl
    rw [List.append_assoc]
    exact ⟨_, .abs (hp _ trivial) hbinder rfl (reads_expr_x (b := []) (by simp) hfollow)⟩
  · intro c r' hrest _ _ r''
    have hdrop := hframe c r' hrest r''
    have hc : isVarChar c = false := by
      rw [Bool.eq_false_iff]
      intro hc
      rw [hrest, Lexeme.read, readRun_cons hc] at hx
      cases hx
    have hfails : Fails resolve .term (p ++ (b ++ c :: r'')) .expectedBinder
        (dropBlank (b ++ c :: r'')) := by
      refine .binder (hp _ trivial) ?_
      rw [hdrop]
      exact varName_read_of_not hc r''
    rwa [hdrop, ← List.append_assoc] at hfails

theorem failsFirst_dot {x r₁ r₂ : List Char}
    (hl : Lexeme.lambda.read (dropBlank s) = some (w, r₁))
    (hx : Lexeme.varName.read (dropBlank r₁) = some (x, r₂)) :
    FailsFirst resolve .term s .expectedDot (dropBlank r₂) := by
  obtain ⟨p₁, hne, rfl, hp₁⟩ := Lexeme.exists_frame (by decide) hl
  obtain ⟨p₂, -, rfl, hp₂⟩ := Lexeme.exists_frame (by decide) hx
  obtain ⟨b, hb, hr, hframe⟩ := exists_blank_frame r₂
  have hends := Lexeme.endsAt_of_read hx
  rw [hr] at hends
  refine ⟨p₁ ++ (p₂ ++ b), by simp [← hr], startsOutside_dropBlank r₂, ?_, ?_⟩
  · refine ⟨['.', ' ', 'x'], by simp [hne], fun follow hfollow => ?_⟩
    have hbinder := hp₂ (b ++ '.' :: ' ' :: 'x' :: follow)
      (hends.append fun _ => startsOutside_cons (by decide) _)
    have hdot : Lexeme.dot.read (dropBlank (b ++ '.' :: ' ' :: 'x' :: follow)) =
        some (['.'], ' ' :: 'x' :: follow) := by
      rw [dropBlank_blanks hb (startsOutside_cons (by decide) _)]
      rfl
    rw [List.append_assoc, List.append_assoc]
    exact ⟨_, .abs (hp₁ _ trivial) hbinder hdot (reads_expr_x (b := []) (by simp) hfollow)⟩
  · intro c r hrest hc _ r'
    have hdrop := hframe c r hrest r'
    rw [hrest] at hends
    have hbinder := hp₂ (b ++ c :: r') (hends.append fun h => h.of_cons r')
    have hfails : Fails resolve .term (p₁ ++ (p₂ ++ (b ++ c :: r'))) .expectedDot
        (dropBlank (b ++ c :: r')) := by
      refine .dot (hp₁ _ trivial) hbinder ?_
      rw [hdrop, Option.eq_none_iff_forall_ne_some]
      rintro ⟨d, r''⟩ hd
      exact hc (List.cons.inj (dot_read_eq_some hd)).1
    rw [hdrop] at hfails
    simpa using hfails

theorem failsFirst_unclosed {r₁ r₂ : List Char}
    (ho : Lexeme.openParen.read (dropBlank s) = some (w, r₁)) (ht : Reads resolve .expr r₁ t r₂)
    (hclose : Lexeme.closeParen.read r₂ = none) :
    FailsFirst resolve .term s .unbalanced r₂ := by
  obtain ⟨p, hne, rfl, hp⟩ := Lexeme.exists_frame (by decide) ho
  obtain ⟨p', rfl, hp'⟩ := ht.exists_frame
  refine ⟨p ++ p', (List.append_assoc ..).symm, ?_, ?_, ?_⟩
  · rw [← (stops_of_reads_expr ht).1]
    exact startsOutside_dropBlank r₂
  · refine ⟨[')'], by simp [hne], fun follow _ => ⟨t, ?_⟩⟩
    have hbody := hp' (')' :: follow) (endsAlike_of_closes (Or.inr ⟨follow, rfl⟩))
    rw [List.append_assoc]
    exact .parens (hp _ trivial) hbody rfl
  · rintro c r rfl hc _ r'
    have hopen : Lexeme.closeParen.read (c :: r') = none := by
      rw [Option.eq_none_iff_forall_ne_some]
      rintro ⟨d, r''⟩ hd
      obtain ⟨rfl, -⟩ := List.cons.inj (closeParen_read_eq_some hd)
      cases hclose
    rw [List.append_assoc]
    exact .unclosed (hp _ trivial) (hp' _ (endsAlike_cons hc)) hopen

/-! ### Parts that fail -/

theorem FailsFirst.body {l x d r₁ r₂ r₃ : List Char}
    (hl : Lexeme.lambda.read (dropBlank s) = some (l, r₁))
    (hx : Lexeme.varName.read (dropBlank r₁) = some (x, r₂))
    (hd : Lexeme.dot.read (dropBlank r₂) = some (d, r₃))
    (h : FailsFirst resolve .expr r₃ fault rest) : FailsFirst resolve .term s fault rest := by
  obtain ⟨w, rfl, hw⟩ := exists_frame_head hl hx hd
  obtain ⟨p, rfl, hp⟩ := h
  refine ⟨w ++ p, (List.append_assoc ..).symm, hp.lift w [] (fun _ h => h) ?_ ?_⟩
  · intro r' t follow _ _ ht
    obtain ⟨r₁', r₂', hl', hx', hd'⟩ := hw r'
    exact ⟨_, .abs hl' hx' hd' ht⟩
  · intro r' left _ hfails
    obtain ⟨r₁', r₂', hl', hx', hd'⟩ := hw r'
    exact .body hl' hx' hd' hfails

theorem FailsFirst.inner (ho : Lexeme.openParen.read (dropBlank s) = some (w, r))
    (h : FailsFirst resolve .expr r fault rest) : FailsFirst resolve .term s fault rest := by
  obtain ⟨w, -, rfl, hw⟩ := Lexeme.exists_frame (by decide) ho
  obtain ⟨p, rfl, hp⟩ := h
  refine ⟨w ++ p, (List.append_assoc ..).symm, hp.lift w [')'] ?_ ?_ ?_⟩
  · exact fun follow _ => Or.inr ⟨follow, rfl⟩
  · exact fun r' t follow _ _ ht => ⟨t, .parens (hw r' trivial) ht rfl⟩
  · exact fun r' left _ hfails => .inner (hw r' trivial) hfails

/-- The first term of a row, or the next argument. -/
theorem FailsFirst.front {part' : Part} (h : FailsFirst resolve .term s fault rest)
    (hread : ∀ s t r, Closes r → Reads resolve .term s t r → ∃ t', Reads resolve part' s t' r)
    (hfail : ∀ s r, Fails resolve .term s fault r → Fails resolve part' s fault r) :
    FailsFirst resolve part' s fault rest := by
  obtain ⟨p, rfl, hp⟩ := h
  refine ⟨p, rfl, hp.lift [] [] (fun _ h => h) ?_ ?_⟩
  · exact fun r' t follow _ hfollow ht => hread r' t follow hfollow ht
  · exact fun r' left _ hfails => hfail r' left hfails

/-- The arguments behind a term that is read. -/
theorem FailsFirst.behind {part' : Part} {a : Term} (ha : Reads resolve .term s a r)
    (hargs : Fails resolve (.args f) r fault rest) (h : FailsFirst resolve (.args f) r fault rest)
    (hread : ∀ s r t r', Reads resolve .term s a r → Reads resolve (.args f) r t r' →
      Reads resolve part' s t r')
    (hfail : ∀ s r rest, Reads resolve .term s a r → Fails resolve (.args f) r fault rest →
      Fails resolve part' s fault rest) : FailsFirst resolve part' s fault rest := by
  -- the row has not stopped yet, so the term is read alike if the next lexeme is
  have hstops : ¬StopsAt resolve r := by
    intro hstops
    have hrefuses : argsAt resolve f (dropBlank r) = .error _ := hargs.refuses
    rw [hstops.1, argsAt_eq, hstops.2] at hrefuses
    cases hrefuses
  obtain ⟨w, rfl, hw⟩ := ha.exists_frame
  obtain ⟨p, rfl, hp⟩ := h
  have hterm : ∀ r', (∀ k : Lexeme, k.EndsAt (p ++ rest) → k.EndsAt r') →
      Reads resolve .term (w ++ r') a r' :=
    fun r' hr' => hw r' ⟨hr', fun h => absurd h hstops⟩
  refine ⟨w ++ p, (List.append_assoc ..).symm, hp.lift w [] (fun _ h => h) ?_ ?_⟩
  · exact fun r' t follow hr' _ ht => ⟨t, hread _ r' t follow (hterm r' hr') ht⟩
  · exact fun r' left hr' hfails => hfail _ r' left (hterm r' hr') hfails

/-- **Every part that fails, fails at the first bad place.** -/
theorem Fails.failsFirst (h : Fails resolve part s fault rest) :
    FailsFirst resolve part s fault rest := by
  induction h with
  | unknown hw _ => exact failsFirst_unknown hw
  | binder hl hx => exact failsFirst_binder hl hx
  | dot hl hx _ => exact failsFirst_dot hl hx
  | body hl hx hd _ ih => exact ih.body hl hx hd
  | inner ho _ ih => exact ih.inner ho
  | unclosed ho ht hc => exact failsFirst_unclosed ho ht hc
  | missing hnone => exact failsFirst_missing hnone
  | first _ ih =>
    exact ih.front (fun s t r hr ht => ⟨t, .expr ht hr.reads_args⟩) fun s r => .first
  | @arg s rest f fault _ ih =>
    exact ih.front (fun s t r hr ht => ⟨.app f t, .arg ht hr.reads_args⟩) fun s r => .arg
  | expr hf hargs ih =>
    exact .behind hf hargs ih (fun s r t r' => .expr) fun s r rest => .expr
  | args ha hargs ih =>
    exact .behind ha hargs ih (fun s r t r' => .arg) fun s r rest => .args

/-! ### Whole texts -/

/-- **A whole text fails at the first bad place**: what stands before it can be completed, and
with the character there the same fault is met again. -/
theorem Rejected.exists_append (h : Rejected resolve s fault rest) :
    ∃ p, s = p ++ rest ∧ StartsOutside isBlank rest ∧ (∃ u t, Reads resolve .expr (p ++ u) t []) ∧
      ∀ c r, rest = c :: r → c ≠ '.' → isMacroChar c = false →
        ∀ r', Rejected resolve (p ++ c :: r') fault (c :: r') := by
  have hend : Closes [] := Or.inl rfl
  rcases h with h | ⟨rfl, hne, t, ht⟩
  · obtain ⟨p, rfl, hp⟩ := h.failsFirst
    obtain ⟨u, -, hu⟩ := hp.completed
    obtain ⟨t, ht⟩ := hu [] hend
    rw [List.append_nil] at ht
    exact ⟨p, rfl, hp.notBlank, ⟨u, t, ht⟩,
      fun c r hrest hc hm r' => Or.inl (hp.failing c r hrest hc hm r')⟩
  · obtain ⟨p, rfl, hp⟩ := ht.exists_frame
    refine ⟨p, rfl, ?_, ⟨[], t, hp [] (endsAlike_of_closes hend)⟩, ?_⟩
    · rw [← (stops_of_reads_expr ht).1]
      exact startsOutside_dropBlank rest
    · rintro c r rfl hc _ r'
      exact Or.inr ⟨rfl, by simp, t, hp _ (endsAlike_cons hc)⟩

namespace MacroTable

/-- **An error points at the first bad place of the text.** The place is in the text or at its
end, and no blank stands there. What stands before it can be completed to a text that is read.
And unless a dot or a capital letter stands there, no text is read that starts with what stands
up to there: the same fault is met at the same place. -/
theorem parse_error_place (table : MacroTable) (strategy : Strategy) (source : String)
    (e : SyntaxError) (h : parse (table.resolve strategy) source = .error e) :
    ∃ k : ℕ, e.offset = k ∧ k ≤ source.length ∧
      (∀ c, source.toList[k]? = some c → isBlank c = false) ∧
      (∃ u t, parse (table.resolve strategy) (String.ofList (source.toList.take k) ++ u) =
        .ok t) ∧
      ∀ c, source.toList[k]? = some c → c ≠ '.' → isMacroChar c = false →
        ∀ text : String, source.toList.take (k + 1) <+: text.toList →
          parse (table.resolve strategy) text = .error ⟨e.fault, e.offset, text⟩ := by
  obtain ⟨rest, he, hrejected⟩ := parse_eq_error_iff.mp h
  obtain ⟨p, hp, hinked, ⟨u, t, ht⟩, hagain⟩ := hrejected.exists_append
  have hlength : source.length = p.length + rest.length := by
    rw [← String.length_toList, hp, List.length_append]
  have hsub : source.length - rest.length = p.length := by omega
  have hoffset : e.offset = p.length := by
    rw [he]
    exact congrArg Nat.cast hsub
  have hrest : source.toList[p.length]? = rest.head? := by
    rw [hp, List.getElem?_append_right (Nat.le_refl _), Nat.sub_self, List.head?_eq_getElem?]
  refine ⟨p.length, hoffset, by omega, fun c hc => hinked c (hrest ▸ hc), ?_, ?_⟩
  · refine ⟨String.ofList u, t, parse_eq_ok_iff.mpr ?_⟩
    rw [hp, List.take_left, ← String.ofList_append, String.toList_ofList]
    exact ht.finds
  · intro c hc hdot hm text htext
    obtain ⟨r, rfl⟩ := List.head?_eq_some_iff.mp (hrest.symm.trans hc)
    obtain ⟨r', hr'⟩ := htext
    have htake : source.toList.take (p.length + 1) = p ++ [c] := by
      rw [hp, List.take_append]
      simp
    have htoList : text.toList = p ++ c :: r' := by rw [← hr', htake, List.append_assoc]; rfl
    refine parse_eq_error_iff.mpr ⟨c :: r', ?_, ?_⟩
    · have hlen : text.length = p.length + (c :: r').length := by
        rw [← String.length_toList, htoList, List.length_append]
      rw [Stuck.toError, hoffset, hlen, Nat.add_sub_cancel]
    · rw [htoList]
      exact hagain c r rfl hdot hm r'

/-- A comma in the body of an abstraction in parentheses: the text could be over there but for
the parenthesis, and with the comma it is beyond help. -/
theorem parse_error_place_comma :
    parse (identityTable.resolve .cbv) "(λx. x I , y)" =
      .error ⟨.unbalanced, 9, "(λx. x I , y)"⟩ ∧
    (∃ u t, parse (identityTable.resolve .cbv) ("(λx. x I " ++ u) = .ok t) ∧
    ∀ text : String, "(λx. x I ,".toList <+: text.toList →
      parse (identityTable.resolve .cbv) text = .error ⟨.unbalanced, 9, text⟩ := by
  have h : parse (identityTable.resolve .cbv) "(λx. x I , y)" =
      .error ⟨.unbalanced, 9, "(λx. x I , y)"⟩ := by decide +kernel
  obtain ⟨k, hk, -, -, hcompleted, hagain⟩ := parse_error_place identityTable .cbv _ _ h
  obtain rfl : 9 = k := Int.ofNat.inj hk
  have hbefore : String.ofList ("(λx. x I , y)".toList.take 9) = "(λx. x I " := by decide +kernel
  rw [hbefore] at hcompleted
  refine ⟨h, hcompleted, hagain ',' (by decide +kernel) (by decide) (by decide)⟩

end MacroTable

end LambdaTrace
