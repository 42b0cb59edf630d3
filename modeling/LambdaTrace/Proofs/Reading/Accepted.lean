import LambdaTrace.Proofs.Reading.Grammar

/-!
# What is accepted

The readers accept exactly what the grammar derives from the tokens of a text, and return
the tree of the derivation (`LambdaTrace.MacroTable.parse_eq_ok_iff_derives`).

Both directions are about what a reader leaves of a text. Soundness goes backwards: from the
tokens of what is left to the tokens of the whole. Completeness goes forwards, and there it
matters what follows: the arguments of a row are read as long as a term starts, and a term
that starts has to be there to the end. So completeness is told for tokens behind which a
term stands, or nothing, or a closing parenthesis (`LambdaTrace.Continues`). In the body of
an abstraction the first cannot be, as the body would not be the longest then.
-/

namespace LambdaTrace

variable {resolve : String → Option Term} {s r : List Char} {ts follow : List Token}
  {c : Category} {t : Term}

/-! ### Where a row of terms stops -/

/-- Behind a row of terms there is no blank and no further term. -/
theorem stops_of_reads {part : Part} (h : Reads resolve part s t r) :
    part = .term ∨ dropBlank r = r ∧ termAt resolve r = .ok none := by
  induction h with
  | expr _ _ _ iha => exact Or.inr (iha.resolve_left (by simp))
  | arg _ _ _ iha => exact Or.inr (iha.resolve_left (by simp))
  | done hnone => exact Or.inr ⟨dropBlank_dropBlank _, hnone⟩
  | _ => exact Or.inl rfl

theorem stops_of_reads_expr (h : Reads resolve .expr s t r) :
    dropBlank r = r ∧ termAt resolve r = .ok none :=
  (stops_of_reads h).resolve_left (by simp)

/-- **A row of terms stops** where a token follows that only closes. -/
theorem weight_head_of_reads (h : Reads resolve .expr s t r)
    (hr : tokens? .nothing r = some follow) : ∀ k ∈ follow.head?, k.weight = -1 := by
  intro k hk
  obtain ⟨hblank, hnone⟩ := stops_of_reads_expr h
  obtain ⟨ks, rfl⟩ := List.head?_eq_some_iff.mp hk
  obtain ⟨w, r', hread, -, -⟩ := read_of_tokens? hr
  obtain ⟨hdots, hvar, hmacro, hlambda, hopen⟩ := termAt_eq_none_iff.mp hnone
  rw [hblank] at hread
  cases k with
  | dots => simp [Token.kind, hdots] at hread
  | name x => simp [Token.kind, hvar] at hread
  | macroName n => simp [Token.kind, hmacro] at hread
  | lambda => simp [Token.kind, hlambda] at hread
  | openParen => simp [Token.kind, hopen] at hread
  | dot => rfl
  | closeParen => rfl

/-! ### What is read is derived -/

/-- **What tokens a part is derived from**, given the ones that follow. The arguments of a term
are derived behind whatever the term is derived from. -/
def DerivesAs (resolve : String → Option Term) (ts follow : List Token) (t : Term) : Part → Prop
  | .term => Derives resolve (Longest resolve) .term ts follow t
  | .expr => Derives resolve (Longest resolve) .expr ts follow t
  | .args f => ∀ us, Derives resolve (Longest resolve) .expr us (ts ++ follow) f →
    Derives resolve (Longest resolve) .expr (us ++ ts) follow t

/-- **What is read is derived.** -/
theorem derivesAs_of_reads {part : Part} (h : Reads resolve part s t r)
    (hr : tokens? .nothing r = some follow) :
    ∃ ts, tokens? .nothing s = some (ts ++ follow) ∧ DerivesAs resolve ts follow t part := by
  induction h generalizing follow with
  | dots hw =>
    exact ⟨[.dots], tokens?_of_read (by simp) hw trivial hr, .dots follow⟩
  | @var s w r hw =>
    exact ⟨[.name (String.ofList w)], tokens?_of_read (by simp) hw rfl hr, .var _ follow⟩
  | @ref s w r e hw he =>
    exact ⟨[.macroName (String.ofList w)], tokens?_of_read (by simp) hw rfl hr, .ref follow he⟩
  | @abs s l x d r₁ r₂ r₃ r b hl hx hd hb ih =>
    obtain ⟨ts, hts, hbody⟩ := ih hr
    have hdot : tokens? .binder r₂ = some (.dot :: (ts ++ follow)) :=
      tokens?_of_read (by simp) hd trivial hts
    have hbinder : tokens? .sign r₁ = some (.name (String.ofList x) :: .dot :: (ts ++ follow)) :=
      tokens?_of_read (by simp) hx rfl hdot
    have hsign : tokens? .nothing s =
        some (.lambda :: .name (String.ofList x) :: .dot :: (ts ++ follow)) :=
      tokens?_of_read (by simp) hl trivial hbinder
    exact ⟨_, hsign, .abs _ hbody (hbody.longest (weight_head_of_reads hb hr))⟩
  | @parens s o c r₁ r₂ r t ho ht hc ih =>
    rw [← (stops_of_reads_expr ht).1] at hc
    have hclose : tokens? .nothing r₂ = some (.closeParen :: follow) :=
      tokens?_of_read (by simp) hc trivial hr
    obtain ⟨ts, hts, hbody⟩ := ih hclose
    have hopen : tokens? .nothing s = some (.openParen :: (ts ++ .closeParen :: follow)) :=
      tokens?_of_read (by simp) ho trivial hts
    exact ⟨.openParen :: (ts ++ [Token.closeParen]), by simpa using hopen, .parens hbody⟩
  | expr _ _ ih iha =>
    obtain ⟨us, hus, hrow⟩ := iha hr
    obtain ⟨vs, hvs, hfirst⟩ := ih hus
    exact ⟨vs ++ us, by simpa using hvs, hrow vs (.single hfirst)⟩
  | arg _ _ ih iha =>
    obtain ⟨us, hus, hrow⟩ := iha hr
    obtain ⟨vs, hvs, harg⟩ := ih hus
    refine ⟨vs ++ us, by simpa using hvs, fun ts hts => ?_⟩
    rw [← List.append_assoc]
    exact hrow (ts ++ vs) (.app (by simpa using hts) harg)
  | done _ =>
    rw [tokens?_dropBlank] at hr
    exact ⟨[], hr, fun us hus => by simpa using hus⟩

/-! ### What is derived is read -/

/-- What may stand behind derived tokens: nothing, a closing parenthesis, or a term that is
there to the end. -/
def Continues (resolve : String → Option Term) (follow : List Token) : Prop :=
  follow = [] ∨ (∃ rest, follow = .closeParen :: rest) ∨
    ∃ us rest u, follow = us ++ rest ∧ Derives resolve (fun _ _ => True) .term us rest u

/-- Behind an expression that is as long as it can be, no term is read. -/
theorem argsAt_of_longest {b : Term}
    (hb : Derives resolve (Longest resolve) .expr ts follow b)
    (hlong : Longest resolve ts follow) (hfollow : Continues resolve follow)
    (hr : tokens? .nothing r = some follow) :
    argsAt resolve b (dropBlank r) = .ok (b, dropBlank r) := by
  have hnone : termAt resolve (dropBlank r) = .ok none := by
    rcases hfollow with rfl | ⟨rest, rfl⟩ | ⟨us, rest, u, rfl, hu⟩
    · exact termAt_eq_none (Or.inl (tokens?_eq_nil_iff.mp hr))
    · obtain ⟨w, r', hread, -, -⟩ := read_of_tokens? hr
      exact termAt_eq_none (Or.inr ⟨r', closeParen_read_eq_some hread⟩)
    · exact absurd (Derives.app (hb.mono fun _ _ _ => trivial) hu) (hlong us rest _ rfl hu.ne_nil)
  rw [argsAt_eq, hnone]

/-- How a text is read that starts with tokens derived for a term or for an expression: what
is left are the tokens that follow, and an expression goes on with arguments there. -/
def ReadsAs (resolve : String → Option Term) (s : List Char) (follow : List Token) (t : Term) :
    Category → Prop
  | .term => ∃ r, termAt resolve (dropBlank s) = .ok (some (t, r)) ∧
      tokens? .nothing r = some follow
  | .expr => ∃ r, exprAt resolve s = argsAt resolve t (dropBlank r) ∧
      tokens? .nothing r = some follow

/-- **What is derived is read.** -/
theorem Derives.readsAs (h : Derives resolve (Longest resolve) c ts follow t)
    (hfollow : Continues resolve follow) (hs : tokens? .nothing s = some (ts ++ follow)) :
    ReadsAs resolve s follow t c := by
  induction h generalizing s with
  | dots follow =>
    obtain ⟨w, r, hread, -, hr⟩ := read_of_tokens? hs
    exact ⟨r, termAt_eq_some_iff.mpr (.dots hread), hr⟩
  | var x follow =>
    obtain ⟨w, r, hread, rfl, hr⟩ := read_of_tokens? hs
    exact ⟨r, termAt_eq_some_iff.mpr (.var hread), hr⟩
  | ref follow he =>
    obtain ⟨w, r, hread, rfl, hr⟩ := read_of_tokens? hs
    exact ⟨r, termAt_eq_some_iff.mpr (.ref hread he), hr⟩
  | abs x hbody hlong ih =>
    obtain ⟨l, r₁, hsign, -, h₁⟩ := read_of_tokens? hs
    obtain ⟨w, r₂, hbinder, rfl, h₂⟩ := read_of_tokens? h₁
    obtain ⟨d, r₃, hdot, -, h₃⟩ := read_of_tokens? h₂
    obtain ⟨r, hread, hr⟩ := ih hfollow h₃
    rw [argsAt_of_longest hbody hlong hfollow hr] at hread
    refine ⟨dropBlank r, termAt_eq_some_iff.mpr (.abs hsign hbinder hdot hread), ?_⟩
    rw [tokens?_dropBlank]
    exact hr
  | @parens ts follow t hbody ih =>
    have hparens : tokens? .nothing s = some (.openParen :: (ts ++ .closeParen :: follow)) := by
      simpa using hs
    obtain ⟨o, r₁, hopen, -, h₁⟩ := read_of_tokens? hparens
    obtain ⟨r₂, hread, h₂⟩ := ih (Or.inr (Or.inl ⟨follow, rfl⟩)) h₁
    obtain ⟨w, r, hclose, -, hr⟩ := read_of_tokens? h₂
    have hlong : Longest resolve ts (.closeParen :: follow) :=
      hbody.longest (by simp [Token.weight])
    rw [argsAt_of_longest hbody hlong (Or.inr (Or.inl ⟨follow, rfl⟩)) h₂] at hread
    exact ⟨r, termAt_eq_some_iff.mpr (.parens hopen hread hclose), hr⟩
  | single _ ih =>
    obtain ⟨r, hread, hr⟩ := ih hfollow hs
    refine ⟨r, ?_, hr⟩
    rw [exprAt_eq, hread]
  | @app ts us follow f a hf ha ihf iha =>
    have hterm : Continues resolve (us ++ follow) :=
      Or.inr (Or.inr ⟨us, follow, a, rfl, ha.mono fun _ _ _ => trivial⟩)
    obtain ⟨r₁, hfn, h₁⟩ := ihf hterm (by simpa using hs)
    obtain ⟨r, harg, hr⟩ := iha hfollow h₁
    refine ⟨r, ?_, hr⟩
    rw [hfn, argsAt_eq, harg]

/-! ### Whole texts -/

/-- A text is read as the tree that is derived from all of its tokens. -/
theorem parse_eq_ok_iff_exists_tokens {source : String} : parse resolve source = .ok t ↔
    ∃ ts, tokens? .nothing source.toList = some ts ∧
      Derives resolve (Longest resolve) .expr ts [] t := by
  rw [parse_eq_ok_iff]
  constructor
  · intro h
    have hend : tokens? .nothing [] = some [] := tokens?_eq_nil_iff.mpr rfl
    obtain ⟨ts, hts, ht⟩ := derivesAs_of_reads (reads_of_exprAt h) hend
    exact ⟨ts, by simpa using hts, ht⟩
  · rintro ⟨ts, hts, ht⟩
    obtain ⟨r, hread, hr⟩ := ht.readsAs (Or.inl rfl) (by simpa using hts)
    have hlong : Longest resolve ts [] := ht.longest (by simp)
    rw [hread, argsAt_of_longest ht hlong (Or.inl rfl) hr, tokens?_eq_nil_iff.mp hr]

namespace MacroTable

/-- **The grammar of what is read**, for every text, table and strategy. Reading returns a
term if and only if the text is cut into tokens to the end, and the term is the tree of a
derivation from them in which the bodies of abstractions extend as far as they can; and it
ends with an error if and only if no tree can be derived from the tokens, even by the rules
alone, or there are none. -/
theorem parse_eq_ok_iff_derives (table : MacroTable) (strategy : Strategy) (source : String) :
    (∀ t, parse (table.resolve strategy) source = .ok t ↔
      ∃ ts, tokens? .nothing source.toList = some ts ∧
        Derives (table.resolve strategy) (Longest (table.resolve strategy)) .expr ts [] t) ∧
    ((∃ e, parse (table.resolve strategy) source = .error e) ↔
      ¬∃ ts t, tokens? .nothing source.toList = some ts ∧
        Derives (table.resolve strategy) (fun _ _ => True) .expr ts [] t) := by
  refine ⟨fun t => parse_eq_ok_iff_exists_tokens, ?_⟩
  constructor
  · rintro ⟨e, he⟩ ⟨ts, t, hts, ht⟩
    obtain ⟨u, hu⟩ := ht.exists_longest (by simp)
    have hok := parse_eq_ok_iff_exists_tokens.mpr ⟨ts, hts, hu⟩
    rw [he] at hok
    cases hok
  · intro h
    cases hp : parse (table.resolve strategy) source with
    | error e => exact ⟨e, rfl⟩
    | ok t =>
      obtain ⟨ts, hts, ht⟩ := parse_eq_ok_iff_exists_tokens.mp hp
      exact absurd ⟨ts, t, hts, ht.mono fun _ _ _ => trivial⟩ h

/-- A placeholder can follow the dot of an abstraction immediately, though the longest token
after the binder is the placeholder and then the dot is missing. -/
theorem parse_ok_not_munched :
    (∃ t, parse ((empty 32).resolve .cbv) "λx...." = .ok t) ∧
      ¬∃ ts t, munchedTokens? "λx....".toList = some ts ∧
        Derives ((empty 32).resolve .cbv) (fun _ _ => True) .expr ts [] t := by
  constructor
  · have hok : (parse ((empty 32).resolve .cbv) "λx....").toOption.isSome := by decide +kernel
    cases hp : parse ((empty 32).resolve .cbv) "λx...." with
    | error e => simp [hp, Except.toOption] at hok
    | ok t => exact ⟨t, rfl⟩
  · rintro ⟨ts, t, hts, ht⟩
    have hmunched : munchedTokens? "λx....".toList = some [.lambda, .name "x", .dots, .dot] := by
      decide +kernel
    rw [hmunched] at hts
    cases hts
    obtain ⟨x, vs, hvs⟩ := ht.of_lambda
    cases (List.cons.inj (List.cons.inj hvs).2).1

end MacroTable

end LambdaTrace
