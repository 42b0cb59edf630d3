import LambdaTrace.Proofs.Session.Listing
import LambdaTrace.Proofs.Text.Grouping

/-!
# The chain of imports to an error

A statement fails by itself, or because of a statement of the file that it imports; so an error
comes with a chain of statements, each of them importing the file of the next one
(`LambdaTrace.Session.Frame.Breaks`). The chain is there for every failing statement, and there is
only one (`LambdaTrace.Session.Frame.existsUnique_breaks`).

When the error is reported, the statements that are being worked on are those of the chain, and
the ones that were being worked on before
(`LambdaTrace.Session.Frame.Breaks.mem_traceback_iff`). They are shown in the order in which their
files are listed. A file that was not listed before comes behind the one that imports it, but one
that is listed from an earlier attempt keeps its place; so the order is that of the chain exactly
if no file of the chain was listed before the one that imports it
(`LambdaTrace.Session.Frame.Breaks.isChain_iff`).
-/

namespace LambdaTrace

namespace Session

variable {files : Files} {s t : Session} {path : String} {imported : Bool} {e : SessionError}

/-! ### How statements fail -/

/-- **Why a file is not entered**: it is being loaded, or it is not opened. -/
inductive Bars (files : Files) (s : Session) (path : String) : SessionError → Prop
  | loading : files.absolute path ∈ s.loading → Bars files s path (.circularImport path)
  | unopened {fault : OpenFault} : files.absolute path ∉ s.loading →
    files.read path = .error fault → Bars files s path (.ofOpening path fault)

/-- No statement is met in a file that is not entered. -/
theorem Bars.not_meets (h : Bars files s path e) (g : Frame) :
    ¬ Meets files s path imported g := by
  intro hg
  cases h with
  | loading hmem => exact hg.notMem hmem
  | unopened _ hfault =>
    obtain ⟨text, -, -, htext, -⟩ := hg.exists_before
    rw [hfault] at htext
    cases htext

/-- A file is loaded in vain because it is not entered, or because of a statement that is met. -/
theorem load_error_cases (h : s.load files path imported = (.error e, t))
    (hslip : ∀ x, e ≠ .slip x) :
    (t = s ∧ Bars files s path e) ∨ ∃ g t', Meets files s path imported g ∧
      g.run files = (.error e, t') ∧ t.reporter = t'.reporter := by
  by_cases hmem : files.absolute path ∈ s.loading
  · rw [load_of_mem hmem] at h
    cases h
    exact Or.inl ⟨rfl, .loading hmem⟩
  cases htext : files.read path with
  | error fault =>
    rw [load_of_unopened hmem htext] at h
    cases h
    exact Or.inl ⟨rfl, .unopened hmem htext⟩
  | ok text =>
    rw [load_of_opened hmem htext] at h
    split at h
    · rename_i e' after hadded
      cases h
      obtain ⟨before, line, number, rest, u, hlines, hbefore, hline⟩ :=
        exists_of_addAllIn_error hadded
      exact Or.inr ⟨⟨u, path, imported, line, number⟩, after,
        ⟨rfl, rfl, hmem, text, before, rest, htext, hlines, hbefore⟩, hline, rfl⟩
    · rw [unlistFile] at h
      split at h
      · cases h
      · cases h
        exact absurd rfl (hslip _)

/-- The statements after one that fails do not matter. -/
theorem addAllIn_of_error {u : Session} {before : List (String × Int)}
    (hbefore : s.addAllIn files path imported before = (.ok (), u)) {x : String × Int}
    (hx : u.addIn files path imported x.1 x.2 = (.error e, t)) (after : List (String × Int)) :
    s.addAllIn files path imported (before ++ x :: after) = (.error e, t) := by
  rw [addAllIn_append, hbefore]
  dsimp only [Work.andThen]
  rw [addAllIn_cons, hx]
  rfl

/-- The first statement that fails is met in one way only. -/
theorem eq_of_append_eq {u u' : Session} {before before' after after' : List (String × Int)}
    {x x' : String × Int} (heq : before ++ x :: after = before' ++ x' :: after')
    (h : s.addAllIn files path imported before = (.ok (), u))
    (hx : ∃ e t, u.addIn files path imported x.1 x.2 = (.error e, t))
    (h' : s.addAllIn files path imported before' = (.ok (), u'))
    (hx' : ∃ e t, u'.addIn files path imported x'.1 x'.2 = (.error e, t)) : u = u' ∧ x = x' := by
  -- a statement among those that were added does not fail
  have hcons : ∀ {s v : Session} {y : String × Int} {ys : List (String × Int)},
      s.addAllIn files path imported (y :: ys) = (.ok (), v) →
      ¬ ∃ e t, s.addIn files path imported y.1 y.2 = (.error e, t) := by
    rintro s v y ys hys ⟨e, t, hy⟩
    rw [addAllIn_cons] at hys
    obtain ⟨_, w, hadd, -⟩ := Work.andThen_eq_ok hys
    rw [hadd] at hy
    cases hy
  induction before generalizing s before' with
  | nil =>
    cases h
    cases before' with
    | nil =>
      cases h'
      exact ⟨rfl, (List.cons.inj heq).1⟩
    | cons y before' =>
      obtain rfl := (List.cons.inj heq).1
      exact absurd hx (hcons h')
  | cons y before ih =>
    cases before' with
    | nil =>
      cases h'
      obtain rfl := (List.cons.inj heq).1
      exact absurd hx' (hcons h)
    | cons y' before' =>
      obtain ⟨rfl, hrest⟩ := List.cons.inj heq
      rw [addAllIn_cons] at h h'
      obtain ⟨_, v, hadd, hbefore⟩ := Work.andThen_eq_ok h
      obtain ⟨_, v', hadd', hbefore'⟩ := Work.andThen_eq_ok h'
      obtain rfl : v = v' := congrArg Prod.snd (hadd.symm.trans hadd')
      exact ih hrest hbefore hbefore'

namespace Frame

variable {f g : Frame} {chain : List Frame}

/-- The file, the statement and its line, as they are registered. -/
def entry (f : Frame) : String × String × Int :=
  (f.path, f.line, f.number)

/-- Whether the statement fails. -/
def Fails (files : Files) (f : Frame) : Prop :=
  ∃ e t, f.run files = (.error e, t)

theorem fails_of_isOk (h : (f.run files).1.isOk = false) : f.Fails files := by
  rw [Fails]
  generalize f.run files = w at h ⊢
  obtain ⟨e | a, t⟩ := w
  · exact ⟨e, t, rfl⟩
  · cases h

/-- A statement that imports a file is carried out by loading it. -/
theorem run_of_import {other : String} (h : Statement.importOf? f.line = some other) :
    f.run files = (f.started.load files (files.imported f.path other) true).andThen
      fun () s => (.ok (), s.finishLine f.path) := by
  rw [Statement.importOf?] at h
  split at h
  · rename_i statement hinfer
    split at h
    · rename_i hkind
      rw [run, addIn, addWith, hinfer]
      dsimp only
      rw [performWith, hkind, ← Option.some.inj h]
      rfl
    · cases h
  · cases h

/-- Another statement says nothing more to the reporter if it fails. -/
theorem reporter_of_not_import (h : Statement.importOf? f.line = none)
    (hfails : f.run files = (.error e, t)) : t.reporter = f.started.reporter := by
  rw [run, addIn, addWith] at hfails
  rw [Statement.importOf?] at h
  split at h
  · rename_i statement hinfer
    rw [hinfer] at hfails
    rcases Work.andThen_eq_error hfails with hdone | ⟨_, _, -, hfinish⟩
    · rw [performWith] at hdone
      split at hdone
      · rename_i hkind
        rw [hkind] at h
        cases h
      · have hreporter := reporter_addDefinition f.started statement f.imported
        rwa [show f.started.addDefinition statement f.imported = (.error e, t) from hdone]
          at hreporter
      · cases hdone
    · cases hfinish
  · rename_i hinfer
    rw [hinfer] at hfails
    cases hfails
    rfl

/-- Only a statement that imports a file has others inside. -/
theorem not_imports (h : Statement.importOf? f.line = none) (g : Frame) : ¬ f.Imports files g := by
  rintro ⟨other, hother, -⟩
  rw [h] at hother
  cases hother

/-- **A statement fails by itself**, or because of one that is met while it imports a file. -/
theorem run_error_cases (h : f.run files = (.error e, t)) (hslip : ∀ x, e ≠ .slip x) :
    (t.reporter = f.started.reporter ∧ ∀ g, ¬ f.Imports files g) ∨
    ∃ g t', f.Imports files g ∧ g.run files = (.error e, t') ∧ t.reporter = t'.reporter := by
  cases himport : Statement.importOf? f.line with
  | none =>
    exact Or.inl ⟨reporter_of_not_import himport h, not_imports himport⟩
  | some other =>
    rw [run_of_import himport] at h
    rcases Work.andThen_eq_error h with hload | ⟨_, _, -, hfinish⟩
    · rcases load_error_cases hload hslip with ⟨rfl, hbars⟩ | ⟨g, t', hmeets, hg, hreporter⟩
      · refine Or.inl ⟨rfl, ?_⟩
        rintro g ⟨other', hother', hmeets⟩
        rw [himport] at hother'
        cases hother'
        exact hbars.not_meets g hmeets
      · exact Or.inr ⟨g, t', ⟨other, himport, hmeets⟩, hg, hreporter⟩
    · cases hfinish

/-- An error of a statement that is met is one of the statement that imports the file. -/
theorem Imports.exists_run_eq (h : f.Imports files g) (hg : g.run files = (.error e, t)) :
    ∃ u, f.run files = (.error e, u) ∧ u.reporter = t.reporter := by
  obtain ⟨other, himport, hmeets⟩ := h
  obtain ⟨text, before, after, htext, hlines, hbefore⟩ := hmeets.exists_before
  rw [run, hmeets.path_eq, hmeets.imported_eq] at hg
  have hadded := addAllIn_of_error hbefore (x := (g.line, g.number)) hg after
  rw [← hlines] at hadded
  rw [run_of_import himport, load_of_opened hmeets.notMem htext, hadded]
  exact ⟨_, rfl, rfl⟩

theorem Imports.fails (h : f.Imports files g) (hg : g.Fails files) : f.Fails files := by
  obtain ⟨e, t, hg⟩ := hg
  obtain ⟨u, hu, -⟩ := h.exists_run_eq hg
  exact ⟨e, u, hu⟩

/-- Only one of the statements that are met fails. -/
theorem Imports.eq_of_fails {g' : Frame} (h : f.Imports files g) (hg : g.Fails files)
    (h' : f.Imports files g') (hg' : g'.Fails files) : g = g' := by
  obtain ⟨other, himport, hmeets⟩ := h
  obtain ⟨other', himport', hmeets'⟩ := h'
  rw [himport] at himport'
  cases himport'
  obtain ⟨text, before, after, htext, hlines, hbefore⟩ := hmeets.exists_before
  obtain ⟨text', before', after', htext', hlines', hbefore'⟩ := hmeets'.exists_before
  rw [htext] at htext'
  cases htext'
  rw [Fails, run, hmeets.path_eq, hmeets.imported_eq] at hg
  rw [Fails, run, hmeets'.path_eq, hmeets'.imported_eq] at hg'
  obtain ⟨hsession, hx⟩ := eq_of_append_eq (hlines.symm.trans hlines') hbefore hg hbefore' hg'
  obtain ⟨session, path, imported, line, number⟩ := g
  obtain ⟨session', path', imported', line', number'⟩ := g'
  obtain rfl : path = _ := hmeets.path_eq
  obtain rfl : path' = _ := hmeets'.path_eq
  obtain rfl : imported = true := hmeets.imported_eq
  obtain rfl : imported' = true := hmeets'.imported_eq
  cases hx
  cases hsession
  rfl

/-! ### The chain -/

/-- **The chain of a failing statement**: the statement, and if it fails because of one that is
met while it imports a file, the chain of that one. -/
inductive Breaks (files : Files) : Frame → List Frame → Prop
  | here {f : Frame} (fails : f.Fails files) (last : ∀ g, f.Imports files g → ¬ g.Fails files) :
    Breaks files f [f]
  | inside {f g : Frame} {chain : List Frame} (imports : f.Imports files g)
    (breaks : Breaks files g chain) : Breaks files f (f :: chain)

theorem Breaks.fails (h : Breaks files f chain) : f.Fails files := by
  induction h with
  | here fails _ => exact fails
  | inside imports _ ih => exact imports.fails ih

/-- There is at most one chain. -/
theorem Breaks.unique (h : Breaks files f chain) {chain' : List Frame}
    (h' : Breaks files f chain') : chain = chain' := by
  induction h generalizing chain' with
  | here _ last =>
    cases h' with
    | here => rfl
    | inside imports breaks => exact absurd breaks.fails (last _ imports)
  | inside imports breaks ih =>
    cases h' with
    | here _ last => exact absurd breaks.fails (last _ imports)
    | inside imports' breaks' =>
      obtain rfl := imports.eq_of_fails breaks.fails imports' breaks'.fails
      rw [ih breaks']

/-! ### The list of files on the way -/

/-- **A statement met in good order**: its file is being worked on and listed, and no statement
of it is. -/
structure Proper (files : Files) (f : Frame) : Prop where
  tidy : Tidy files f.session
  busy : Busy files f.session f.path
  idle : f.session.Idle f.path
  listed : f.path ∈ f.session.reporter.traceback.paths

theorem Proper.lists (hfiles : files.IsRooted) (h : f.Proper files) :
    Lists files f.session (f.run files) :=
  lists_addIn hfiles h.tidy h.busy h.idle h.listed f.imported f.line f.number

theorem Proper.started (h : f.Proper files) : Tidy files f.started :=
  h.tidy.registerLine h.busy f.line f.number

theorem Proper.mem_started_iff (h : f.Proper files) {q : String} {v : String × Int} :
    (q, some v) ∈ f.started.reporter.traceback ↔
      (q, v) = f.entry ∨ (q, some v) ∈ f.session.reporter.traceback := by
  have hne : (q, some v) ∈ f.session.reporter.traceback → q ≠ f.path :=
    fun hmem heq => h.idle v (heq ▸ hmem)
  have hset : (q, some v) ∈ f.started.reporter.traceback ↔ _ := Traceback.mem_set h.tidy.nodup
  rw [hset, entry, Prod.mk.injEq, Option.some_inj]
  exact or_congr_right ⟨And.right, fun hmem => ⟨hne hmem, hmem⟩⟩

/-- What is listed when a statement is met, compared to when its file was entered. -/
theorem Imports.lists (hfiles : files.IsRooted) (hf : f.Proper files) (h : f.Imports files g) :
    Lists files (f.started.enterFile g.path (files.absolute g.path)) (.ok (), g.session) := by
  obtain ⟨other, -, hmeets⟩ := h
  obtain ⟨text, before, after, -, -, hbefore⟩ := hmeets.exists_before
  rw [← hmeets.path_eq] at hbefore
  have hlists := lists_addAllIn hfiles (hf.started.enterFile g.path) (busy_enterFile files _ g.path)
    (idle_enterFile hf.started.nodup g.path _) (listed_enterFile _ g.path _) true before
  rwa [hbefore] at hlists

theorem Imports.loading_eq (h : f.Imports files g) :
    g.session.loading = f.session.loading ++ [files.absolute g.path] := by
  obtain ⟨other, -, hmeets⟩ := h
  rw [hmeets.path_eq]
  exact hmeets.loading_eq

/-- The file of a statement that is met is not the one of a statement being worked on. -/
theorem Imports.not_busy (hfiles : files.IsRooted) (h : f.Imports files g) :
    ¬ Busy files f.session g.path := by
  obtain ⟨other, -, hmeets⟩ := h
  rw [hmeets.path_eq]
  exact not_or.mpr ⟨hfiles.imported_ne _ _, hmeets.notMem⟩

theorem Imports.busy (h : f.Imports files g) {q : String} (hq : Busy files f.session q) :
    Busy files g.session q := by
  refine hq.imp_right fun hmem => ?_
  rw [h.loading_eq]
  exact List.mem_append_left _ hmem

theorem Imports.proper (hfiles : files.IsRooted) (hf : f.Proper files) (h : f.Imports files g) :
    g.Proper files := by
  have hlists := h.lists hfiles hf
  have hloading : g.session.loading =
      (f.started.enterFile g.path (files.absolute g.path)).loading := h.loading_eq
  refine ⟨hlists.tidy rfl (hf.started.enterFile g.path) hloading,
    (busy_enterFile files f.started g.path).congr hloading, fun v hv => ?_,
    hlists.keeps.mem (busy_enterFile files _ g.path) (listed_enterFile _ g.path _)⟩
  exact idle_enterFile hf.started.nodup g.path _ v ((hlists.active rfl g.path v).mp hv)

/-- The statements being worked on when another one is met. -/
theorem Imports.mem_iff (hfiles : files.IsRooted) (hf : f.Proper files) (h : f.Imports files g)
    {q : String} {v : String × Int} : (q, some v) ∈ g.session.reporter.traceback ↔
      (q, v) = f.entry ∨ (q, some v) ∈ f.session.reporter.traceback := by
  have hne : (q, some v) ∈ f.started.reporter.traceback → q ≠ g.path :=
    fun hmem heq => h.not_busy hfiles (heq ▸ hf.started.busy q v hmem)
  rw [(h.lists hfiles hf).active rfl q v, ← hf.mem_started_iff]
  refine (Traceback.mem_set hf.started.nodup).trans ⟨?_, fun hmem => Or.inr ⟨hne hmem, hmem⟩⟩
  rintro (⟨-, hnone⟩ | ⟨-, hmem⟩)
  · cases hnone
  · exact hmem

/-- What is listed when a statement is met was listed before, or is its file. -/
theorem Imports.listed (hfiles : files.IsRooted) (hf : f.Proper files) (h : f.Imports files g)
    {q : String} (hq : q ∈ g.session.reporter.traceback.paths) :
    q = g.path ∨ q ∈ f.session.reporter.traceback.paths := by
  refine (Traceback.mem_paths_set.mp ((h.lists hfiles hf).listed rfl q hq)).imp_right fun hmem => ?_
  exact (Traceback.mem_paths_set.mp hmem).elim (fun heq => heq ▸ hf.listed) id

/-- The file of the statement that imports is still listed. -/
theorem Imports.listed_path (hfiles : files.IsRooted) (hf : f.Proper files)
    (h : f.Imports files g) : f.path ∈ g.session.reporter.traceback.paths := by
  refine (h.lists hfiles hf).keeps.mem ((hf.busy.congr rfl).enterFile g.path _) ?_
  exact Traceback.mem_paths_set.mpr (Or.inr (Traceback.mem_paths_set.mpr (Or.inl rfl)))

/-- **Where a file that is entered is listed**: behind the one that imports it, unless it was
listed before that one already. -/
theorem Imports.sublist_iff (hfiles : files.IsRooted) (hf : f.Proper files)
    (h : f.Imports files g) : [f.path, g.path].Sublist g.session.reporter.traceback.paths ↔
      ¬ [g.path, f.path].Sublist f.session.reporter.traceback.paths := by
  have hne : f.path ≠ g.path := fun heq => h.not_busy hfiles (heq ▸ hf.busy)
  have hlists := h.lists hfiles hf
  have hstarted : f.started.reporter.traceback.paths = f.session.reporter.traceback.paths :=
    (Traceback.paths_set _ _ _).trans (if_pos hf.listed)
  have hlisted : f.path ∈ f.started.reporter.traceback.paths := hstarted ▸ hf.listed
  have hentered := Traceback.sublist_paths_set_iff hf.started.nodup hlisted hne none
  rw [hstarted] at hentered
  have hkept : [f.path, g.path].Sublist g.session.reporter.traceback.paths ↔ _ :=
    hlists.keeps.sublist_iff hlists.nodup
    (Traceback.mem_paths_set.mpr (Or.inr hlisted)) (listed_enterFile _ g.path _)
    (hf.busy.congr rfl |>.enterFile g.path _) (busy_enterFile files _ g.path) hne
  exact hkept.trans hentered

/-- **Every failing statement has one chain.** -/
theorem existsUnique_breaks (hfiles : files.IsRooted) (hf : f.Proper files)
    (hfails : f.Fails files) : ∃! chain, Breaks files f chain := by
  have hexists : ∃ chain, Breaks files f chain := by
    induction f using (wellFounded_imports files).induction with
    | _ f ih =>
      by_cases hlast : ∃ g, f.Imports files g ∧ g.Fails files
      · obtain ⟨g, himports, hg⟩ := hlast
        obtain ⟨chain, hchain⟩ := ih g himports (himports.proper hfiles hf) hg
        exact ⟨f :: chain, .inside himports hchain⟩
      · exact ⟨[f], .here hfails fun g himports hg => hlast ⟨g, himports, hg⟩⟩
  obtain ⟨chain, h⟩ := hexists
  exact ⟨chain, h, fun chain' h' => h'.unique h⟩

/-! ### What is listed when the error is reported -/

theorem Imports.reporter_run (h : f.Imports files g) (hg : g.Fails files) :
    (f.run files).2.reporter = (g.run files).2.reporter := by
  obtain ⟨e, t, hg⟩ := hg
  obtain ⟨u, hu, hreporter⟩ := h.exists_run_eq hg
  rw [hu, hg]
  exact hreporter

/-- What fails by itself leaves its statement registered. -/
theorem Proper.reporter_run (hfiles : files.IsRooted) (hf : f.Proper files)
    (hfails : f.Fails files) (hlast : ∀ g, f.Imports files g → ¬ g.Fails files) :
    (f.run files).2.reporter = f.started.reporter := by
  obtain ⟨e, t, hrun⟩ := hfails
  have hlists := hf.lists hfiles
  rw [hrun] at hlists ⊢
  rcases run_error_cases hrun hlists.ne_slip with ⟨hreporter, -⟩ | ⟨g, u, himports, hg, -⟩
  · exact hreporter
  · exact absurd ⟨e, u, hg⟩ (hlast g himports)

namespace Breaks

theorem exists_eq_cons (h : Breaks files f chain) : ∃ rest, chain = f :: rest := by
  cases h with
  | here => exact ⟨[], rfl⟩
  | inside => exact ⟨_, rfl⟩

/-- **The statements being worked on when the error is reported**: those of the chain, and those
from before. -/
theorem mem_traceback_iff (hfiles : files.IsRooted) (h : Breaks files f chain)
    (hf : f.Proper files) {q : String} {v : String × Int} :
    (q, some v) ∈ (f.run files).2.reporter.traceback ↔
      (q, v) ∈ chain.map entry ∨ (q, some v) ∈ f.session.reporter.traceback := by
  induction h with
  | here fails last =>
    rw [hf.reporter_run hfiles fails last, hf.mem_started_iff, List.map_singleton,
      List.mem_singleton]
  | inside imports breaks ih =>
    rw [imports.reporter_run breaks.fails, ih (imports.proper hfiles hf),
      imports.mem_iff hfiles hf, List.map_cons, List.mem_cons, or_left_comm, or_assoc]

/-- The files further down the chain are entered on the way. -/
theorem not_busy (hfiles : files.IsRooted) (h : Breaks files f chain) :
    ∀ g ∈ chain.tail, ¬ Busy files f.session g.path := by
  induction h with
  | here => exact fun _ hk => absurd hk List.not_mem_nil
  | @inside f g chain imports breaks ih =>
    obtain ⟨rest, rfl⟩ := breaks.exists_eq_cons
    intro k hk
    rcases List.mem_cons.mp hk with rfl | hk
    · exact imports.not_busy hfiles
    · exact fun hbusy => ih k hk (imports.busy hbusy)

/-- No file is twice on the chain. -/
theorem nodup (hfiles : files.IsRooted) (h : Breaks files f chain) (hf : f.Proper files) :
    (chain.map (·.path)).Nodup := by
  induction h with
  | here => exact List.nodup_singleton _
  | inside imports breaks ih =>
    refine List.nodup_cons.mpr ⟨fun hmem => ?_, ih (imports.proper hfiles hf)⟩
    obtain ⟨k, hk, hpath⟩ := List.mem_map.mp hmem
    exact (inside imports breaks).not_busy hfiles k hk (hpath ▸ hf.busy)

/-- Further down the chain no statement is empty. -/
theorem line_ne_empty (h : Breaks files f chain) : ∀ g ∈ chain.tail, g.line ≠ "" := by
  induction h with
  | here => exact fun _ hk => absurd hk List.not_mem_nil
  | @inside f g chain imports breaks ih =>
    obtain ⟨rest, rfl⟩ := breaks.exists_eq_cons
    intro k hk
    rcases List.mem_cons.mp hk with rfl | hk
    · obtain ⟨other, -, hmeets⟩ := imports
      obtain ⟨text, before, after, -, hlines, -⟩ := hmeets.exists_before
      have hmem : (k.line, k.number) ∈ Grouping.statements (linesOf text) := by simp [hlines]
      exact Grouping.ne_empty_of_mem_statements hmem
    · exact ih k hk

/-- **In which order the files of the chain are listed** when the error is reported: each behind
the one that imports it, unless it was listed before that one already. -/
theorem isChain_iff (hfiles : files.IsRooted) (h : Breaks files f chain) (hf : f.Proper files) :
    (chain.IsChain fun a b => [a.path, b.path].Sublist (f.run files).2.reporter.traceback.paths) ↔
      chain.IsChain fun a b => ¬ [b.path, a.path].Sublist a.session.reporter.traceback.paths := by
  induction h with
  | here => exact iff_of_true (List.isChain_singleton _) (List.isChain_singleton _)
  | @inside f g chain imports breaks ih =>
    have hg := imports.proper hfiles hf
    have hrest := ih hg
    have hne : f.path ≠ g.path := fun heq => imports.not_busy hfiles (heq ▸ hf.busy)
    have hfg : [f.path, g.path].Sublist (f.run files).2.reporter.traceback.paths ↔
        ¬ [g.path, f.path].Sublist f.session.reporter.traceback.paths := by
      have hlists := hg.lists hfiles
      rw [imports.reporter_run breaks.fails, ← imports.sublist_iff hfiles hf]
      exact hlists.keeps.sublist_iff hlists.nodup (imports.listed_path hfiles hf) hg.listed
        (imports.busy hf.busy) hg.busy hne
    obtain ⟨rest, rfl⟩ := breaks.exists_eq_cons
    rw [List.isChain_cons_cons, List.isChain_cons_cons, hfg, imports.reporter_run breaks.fails,
      hrest]

/-- Files that were not listed before are listed in the order of the chain. -/
theorem isChain_of_notMem (hfiles : files.IsRooted) (h : Breaks files f chain)
    (hf : f.Proper files)
    (hnew : ∀ g ∈ chain.tail, g.path ∉ f.session.reporter.traceback.paths) :
    chain.IsChain fun a b => ¬ [b.path, a.path].Sublist a.session.reporter.traceback.paths := by
  induction h with
  | here => exact List.isChain_singleton _
  | @inside f g chain imports breaks ih =>
    have hg := imports.proper hfiles hf
    have hnew' : ∀ k ∈ chain.tail, k.path ∉ g.session.reporter.traceback.paths := by
      intro k hk hlisted
      rcases imports.listed hfiles hf hlisted with heq | hlisted
      · exact breaks.not_busy hfiles k hk (heq ▸ hg.busy)
      · exact hnew k (List.mem_of_mem_tail hk) hlisted
    have hrest := ih hg hnew'
    obtain ⟨rest, rfl⟩ := breaks.exists_eq_cons
    refine List.isChain_cons_cons.mpr ⟨fun hsub => ?_, hrest⟩
    exact hnew g List.mem_cons_self (hsub.subset List.mem_cons_self)

/-- **What is shown of the error**, if nothing was being worked on before: the statements of the
chain, and in its order if no file of it was listed before the one that imports it. -/
theorem active_perm_and_eq_iff (hfiles : files.IsRooted) (h : Breaks files f chain)
    (hf : f.Proper files) (hidle : ∀ path, f.session.Idle path) (hline : f.line ≠ "") :
    (f.run files).2.reporter.traceback.active.Perm (chain.map entry) ∧
      ((f.run files).2.reporter.traceback.active = chain.map entry ↔
        chain.IsChain fun a b =>
          ¬ [b.path, a.path].Sublist a.session.reporter.traceback.paths) := by
  have hnodup : ((chain.map entry).map (·.1)).Nodup := by
    rw [List.map_map]
    exact h.nodup hfiles hf
  have hne : ∀ g ∈ chain, g.line ≠ "" := by
    have htail := h.line_ne_empty
    obtain ⟨rest, rfl⟩ := h.exists_eq_cons
    intro g hg
    rcases List.mem_cons.mp hg with rfl | hg
    · exact hline
    · exact htail g hg
  have hmem : ∀ x, x ∈ (f.run files).2.reporter.traceback.active ↔ x ∈ chain.map entry := by
    rintro ⟨q, v⟩
    rw [Traceback.mem_active, h.mem_traceback_iff hfiles hf, or_iff_left (hidle q v)]
    refine and_iff_left_of_imp fun hv => ?_
    obtain ⟨g, hg, heq⟩ := List.mem_map.mp hv
    cases heq
    exact hne g hg
  obtain ⟨hperm, hiff⟩ := Traceback.active_perm_and_eq_iff (hf.lists hfiles).nodup hnodup hmem
  refine ⟨hperm, hiff.trans ?_⟩
  rw [List.isChain_map, ← h.isChain_iff hfiles hf]
  rfl

end Breaks

end Frame

end Session

end LambdaTrace
