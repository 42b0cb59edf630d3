import LambdaTrace.Session.Run

/-!
# Messages that can always be filled

The message of an error is written as a template and filled with source texts when the error is
raised. The texts are the user's, but they are only put into slots: what is taken apart is the
template, and the templates of the program are plain texts with empty slots between them. So an
error that is raised always has its report (`LambdaTrace.SessionError.raised_eq`), whatever the
texts are that it is about, braces included.
-/

namespace LambdaTrace

namespace Template

/-! ### Plain texts and empty slots -/

/-- **A plain text** has no braces in it. -/
def IsPlain (s : List Char) : Prop :=
  ∀ c ∈ s, c ≠ '\x7b' ∧ c ≠ '\x7d'

instance (s : List Char) : Decidable (IsPlain s) :=
  List.decidableBAll (fun c => c ≠ '\x7b' ∧ c ≠ '\x7d') s

/-- The slot that asks for the next text as it is. -/
def emptySlot : List Char :=
  ['\x7b', '\x7d']

theorem pieces_cons {c : Char} (hopen : c ≠ '\x7b') (hclose : c ≠ '\x7d') (s : List Char) :
    pieces (c :: s) = .literal c :: pieces s := by
  rw [pieces]
  · exact fun _ h => absurd h hopen
  · exact fun _ h => absurd h hclose
  · exact fun h => absurd h hclose
  · exact fun h => absurd h hopen
  · exact fun h => absurd h hopen

theorem pieces_emptySlot (s : List Char) :
    pieces (emptySlot ++ s) = .slot ⟨[], none, []⟩ :: pieces s := by
  have htake : takeSlot ('\x7d' :: s) = .ok (⟨[], none, []⟩, s) := rfl
  rw [emptySlot, List.cons_append, List.cons_append, List.nil_append, pieces]
  · split
    · rename_i h
      rw [htake] at h
      cases h
    · rename_i h
      rw [htake] at h
      cases h
      rfl
  · exact fun _ h => by cases h
  · exact fun h => by cases h

section Filling

variable {fill : Numbering → List Char → Except TemplateError (List Char × Numbering)}
  {texts : List String}

/-- Plain texts are taken as they are. -/
theorem fillPieces_plain {p : List Char} (hp : IsPlain p) (numbering : Numbering)
    (s : List Char) : fillPieces fill texts numbering (pieces (p ++ s)) =
      (fillPieces fill texts numbering (pieces s)).map fun (t, n) => (p ++ t, n) := by
  induction p with
  | nil =>
    rw [List.nil_append]
    cases fillPieces fill texts numbering (pieces s) <;> rfl
  | cons c p ih =>
    obtain ⟨hopen, hclose⟩ := hp c List.mem_cons_self
    rw [List.cons_append, pieces_cons hopen hclose, fillPieces,
      ih fun d hd => hp d (List.mem_cons_of_mem _ hd)]
    cases fillPieces fill texts numbering (pieces s) <;> rfl

/-- How slots are numbered where some texts have been taken. -/
def taken : Nat → Numbering
  | 0 => .undecided
  | n + 1 => .inTurn (n + 1)

theorem next_taken (n : Nat) : (taken n).next [] = .ok (n, taken (n + 1)) := by
  cases n <;> rfl

/-- An empty slot takes the next text. -/
theorem fillPieces_emptySlot {n : Nat} {text : String} (htext : texts[n]? = some text)
    (s : List Char) : fillPieces fill texts (taken n) (pieces (emptySlot ++ s)) =
      (fillPieces fill texts (taken (n + 1)) (pieces s)).map fun (t, m) =>
        (text.toList ++ t, m) := by
  have hlook : lookUp texts (taken n) [] = .ok (.text text, taken (n + 1)) := by
    rw [lookUp, List.takeWhile_nil, next_taken]
    dsimp only
    rw [htext, List.dropWhile_nil]
    dsimp only
    rw [follow]
    rfl
  have hslot : fillSlot fill texts (taken n) ⟨[], none, []⟩ =
      .ok (text.toList, taken (n + 1)) := by
    rw [fillSlot, hlook]
    rfl
  rw [pieces_emptySlot, fillPieces, hslot]

/-- **A template of plain texts with empty slots between them** is filled with one text for each
slot. -/
theorem fillPieces_slots {tail : List (List Char)} (htail : ∀ p ∈ tail, IsPlain p) {n : Nat}
    (hlength : n + tail.length ≤ texts.length) :
    (fillPieces fill texts (taken n) (pieces (tail.flatMap (emptySlot ++ ·)))).map (·.1) =
      .ok (List.zipWith (fun text p => text.toList ++ p) (texts.drop n) tail).flatten := by
  induction tail generalizing n with
  | nil =>
    rw [List.flatMap_nil, pieces, List.zipWith_nil_right]
    rfl
  | cons p tail ih =>
    have hn : n < texts.length := by
      rw [List.length_cons] at hlength
      omega
    have hrest := ih (fun q hq => htail q (List.mem_cons_of_mem _ hq)) (n := n + 1)
      (by rw [List.length_cons] at hlength; omega)
    rw [List.flatMap_cons, List.append_assoc, fillPieces_emptySlot (List.getElem?_eq_getElem hn),
      fillPieces_plain (htail p List.mem_cons_self), List.drop_eq_getElem_cons hn,
      List.zipWith_cons_cons, List.flatten_cons]
    generalize fillPieces fill texts (taken (n + 1)) _ = r at hrest ⊢
    cases r with
    | error e => cases hrest
    | ok r => simp [Except.map, ← Except.ok.inj hrest]

end Filling

end Template

/-- **A template of plain texts with empty slots between them** is filled, whatever the texts
are. -/
theorem fillTemplate_slots {head : List Char} (hhead : Template.IsPlain head)
    (tail : List (List Char)) (htail : ∀ p ∈ tail, Template.IsPlain p) (texts : List String)
    (hlength : tail.length ≤ texts.length) :
    fillTemplate (String.ofList (head ++ tail.flatMap (Template.emptySlot ++ ·))) texts =
      .ok (String.ofList (head ++
        (List.zipWith (fun text p => text.toList ++ p) texts tail).flatten)) := by
  have hslots : (Template.fillPieces (Template.fillNested texts 1) texts .undecided
      (Template.pieces (tail.flatMap (Template.emptySlot ++ ·)))).map (·.1) =
        .ok (List.zipWith (fun text p => text.toList ++ p) texts tail).flatten :=
    Template.fillPieces_slots (n := 0) htail (by omega)
  rw [fillTemplate, String.toList_ofList, Template.maxDepth, Template.fillNested,
    Template.fillPieces_plain hhead]
  generalize Template.fillPieces _ texts _ _ = r at hslots ⊢
  cases r with
  | error e => cases hslots
  | ok r => simp [Except.map, ← Except.ok.inj hslots]

/-- A message without slots. -/
theorem fillTemplate_plain {message : String} (h : Template.IsPlain message.toList)
    (texts : List String) : fillTemplate message texts = .ok message := by
  simpa using fillTemplate_slots h [] (by simp) texts (Nat.zero_le _)

/-- A message with one slot. -/
theorem fillTemplate_slot (before after : String) (hbefore : Template.IsPlain before.toList)
    (hafter : Template.IsPlain after.toList) (text : String) :
    fillTemplate (before ++ "\x7b\x7d" ++ after) [text] = .ok (before ++ text ++ after) := by
  have hfill := fillTemplate_slots hbefore [after.toList]
    (fun p hp => List.mem_singleton.mp hp ▸ hafter) [text] (Nat.le_refl _)
  have htemplate : String.ofList
      (before.toList ++ [after.toList].flatMap (Template.emptySlot ++ ·)) =
        before ++ "\x7b\x7d" ++ after := by
    rw [← String.toList_inj]
    simp [Template.emptySlot]
  rw [htemplate] at hfill
  rw [hfill]
  simp [String.ofList_append, String.append_assoc]

/-- A message with two slots. -/
theorem fillTemplate_twoSlots (before middle after : String)
    (hbefore : Template.IsPlain before.toList) (hmiddle : Template.IsPlain middle.toList)
    (hafter : Template.IsPlain after.toList) (first second : String) :
    fillTemplate (before ++ "\x7b\x7d" ++ middle ++ "\x7b\x7d" ++ after) [first, second] =
      .ok (before ++ first ++ middle ++ second ++ after) := by
  have hfill := fillTemplate_slots hbefore [middle.toList, after.toList]
    (by simp [hmiddle, hafter]) [first, second] (Nat.le_refl _)
  have htemplate : String.ofList
      (before.toList ++ [middle.toList, after.toList].flatMap (Template.emptySlot ++ ·)) =
        before ++ "\x7b\x7d" ++ middle ++ "\x7b\x7d" ++ after := by
    rw [← String.toList_inj]
    simp [Template.emptySlot]
  rw [htemplate] at hfill
  rw [hfill]
  simp [String.ofList_append, String.append_assoc]

/-! ### The messages of the program -/

namespace Report

theorem ofTemplate_eq {template message expr : String} {texts : List String}
    (h : fillTemplate template (expr :: texts) = .ok message) (kind : ReportKind)
    (diagnosis internal : Bool) :
    ofTemplate kind template (expr :: texts) 0 (-1) diagnosis internal =
      .ok { about message expr diagnosis with kind, internal } := by
  rw [ofTemplate, h]
  rfl

theorem ofSubject_plain {message : String} (h : Template.IsPlain message.toList) (expr : String)
    (diagnosis : Bool) : ofSubject message expr diagnosis = .ok (.about message expr diagnosis) :=
  ofTemplate_eq (fillTemplate_plain h [expr]) .general diagnosis false

theorem ofSubject_slot (before after : String) (hbefore : Template.IsPlain before.toList)
    (hafter : Template.IsPlain after.toList) (expr : String) (diagnosis : Bool) :
    ofSubject (before ++ "\x7b\x7d" ++ after) expr diagnosis =
      .ok (.about (before ++ expr ++ after) expr diagnosis) :=
  ofTemplate_eq (fillTemplate_slot before after hbefore hafter expr) .general diagnosis false

end Report

/-- The wording of every fault is plain. -/
theorem Fault.isPlain_message (f : Fault) : Template.IsPlain f.message.toList := by
  cases f <;> decide +kernel

theorem SyntaxError.raised_eq (e : SyntaxError) : e.raised = .ok e.report := by
  rw [raised, Report.readingOfTemplate, fillTemplate_plain e.fault.isPlain_message]
  rfl

theorem TableError.raised_eq (e : TableError) : e.raised = .ok e.report := by
  cases e with
  | reading e => exact e.raised_eq
  | circular cycle =>
    have hfill := fillTemplate_slot "cannot define circularly dependent macro: " ""
      (by decide +kernel) (by decide +kernel) (cycleText cycle)
    rw [String.append_empty, String.append_empty] at hfill
    exact Report.ofTemplate_eq hfill .definition false false

theorem StatementError.raised_eq (e : StatementError) : e.raised = .ok e.report := by
  cases e with
  | malformedImport line => exact Report.ofSubject_plain (by decide +kernel) line true
  | blank line =>
    exact Report.ofSubject_slot "'" "' is not valid lambdalab grammar" (by decide +kernel)
      (by decide +kernel) line true

theorem mapError_of_eq_ok {r : Except TemplateError Report} {report : Report}
    (h : r = .ok report) : r.mapError TemplateError.failure = .ok report := by
  rw [h]
  rfl

namespace SessionError

/-- **Whether an error has a report**: it is no slip of the program, and has nothing to do with a
name that is not handed to the system. -/
def HasReport : SessionError → Prop
  | .slip _ => False
  | .nullInName _ => False
  | _ => True

theorem hasReport_or {e : SessionError} (h : ∀ x, e ≠ .slip x) :
    e.HasReport ∨ ∃ path, e = .nullInName path := by
  cases e with
  | slip x => exact absurd rfl (h x)
  | nullInName path => exact Or.inr ⟨path, rfl⟩
  | _ => exact Or.inl trivial

/-- **An error that is raised has its report**, if it is to have one. -/
theorem raised_eq {e : SessionError} (h : e.HasReport) : e.raised = .ok e.report := by
  cases e with
  | circularImport path =>
    exact mapError_of_eq_ok (Report.ofSubject_slot "circular import of '" "'" (by decide +kernel)
      (by decide +kernel) path false)
  | unreadable path =>
    exact mapError_of_eq_ok (Report.ofSubject_slot "'" "' could not be opened" (by decide +kernel)
      (by decide +kernel) path false)
  | nullInName path => exact h.elim
  | statement e => exact mapError_of_eq_ok e.raised_eq
  | table e => exact mapError_of_eq_ok e.raised_eq
  | reading e => exact mapError_of_eq_ok e.raised_eq
  | unknownStrategy name =>
    exact mapError_of_eq_ok (Report.ofSubject_slot "unknown evaluation strategy '" "'"
      (by decide +kernel) (by decide +kernel) name false)
  | badBudget text =>
    exact mapError_of_eq_ok (Report.ofSubject_slot
      "timeout must be a positive number of steps, got '" "'" (by decide +kernel)
      (by decide +kernel) text false)
  | nothingToStep =>
    exact mapError_of_eq_ok (Report.ofSubject_plain (by decide +kernel) "" false)
  | slip x => exact h.elim

theorem failure_eq {e : SessionError} (h : e.HasReport) : e.failure = .reported e.report := by
  rw [failure, raised_eq h]

end SessionError

/-- **A name with a null character in it** is no error of the program's own. It is written, and
goes on its way unless errors are fatal. -/
theorem Reporter.close_nullInName (h : Reporter) :
    ∃ r, h.close .nullInName = (h.verdict .escape, h.throw r) := by
  have hplain : Template.IsPlain
      ("unknown error: '" ++ "ValueError" ++ ": " ++ nullByteMessage ++ "'").toList := by
    decide +kernel
  have hreport := Report.ofTemplate_eq (fillTemplate_plain hplain [""]) .general true true
  exact ⟨_, by rw [Failure.nullInName, close, hreport]⟩

/-- **The warning of a spent budget** can be written. -/
theorem Session.timeoutWarning_eq (s : Session) (statement : Statement) :
    s.timeoutWarning statement = .ok (.about ("'" ++ statement.text ++
      "' has no normal form within " ++ toString s.budget ++ " steps") statement.text false) := by
  have hfill := fillTemplate_twoSlots "'" "' has no normal form within " " steps"
    (by decide +kernel) (by decide +kernel) (by decide +kernel) statement.text
    (toString s.budget)
  exact Report.ofTemplate_eq hfill .general false false

end LambdaTrace
