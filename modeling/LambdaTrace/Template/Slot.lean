import LambdaTrace.Template.Error

/-!
# Slots

A message template is a text with slots. A slot stands in braces:

    slot ::= field ["!" form] [":" layout]

The field has no brace in it and ends before a colon or an exclamation mark, except
between square brackets, where everything belongs to it. The form is one character.
The layout may have slots of its own. A doubled brace outside a slot stands for the
brace itself.

`LambdaTrace.Template.pieces` takes a template apart. Of what stands in a slot it
reads only as much as is needed to find its end, and it reads nothing after a fault.
-/

namespace LambdaTrace.Template

/-- What stands between the braces of a slot. -/
structure Slot where
  /-- What is asked for. -/
  field : List Char
  /-- The form in which it is taken. -/
  form : Option Char
  /-- How it is laid out. -/
  layout : List Char
  deriving DecidableEq

/-- A part of a template. -/
inductive Piece where
  | literal (c : Char)
  | slot (s : Slot)
  /-- A brace without its partner, or the beginning of a slot that is none. -/
  | fault (m : Malformed)
  deriving DecidableEq

/-- What a slot asks for, the character that ends this, and what follows. Inside
square brackets there is no such character. -/
def takeField (inItem : Bool) : List Char → Except Malformed (List Char × Char × List Char)
  | [] => .error .unclosedSlot
  | c :: s =>
    if inItem then (takeField (c != ']') s).map fun (field, stop, rest) => (c :: field, stop, rest)
    else if c == '\x7b' then .error .openingInField
    else if c == '\x7d' || c == ':' || c == '!' then .ok ([], c, s)
    else (takeField (c == '[') s).map fun (field, stop, rest) => (c :: field, stop, rest)

/-- The layout of a slot inside which some braces are open, and what follows the
brace that closes the slot. -/
def takeLayout (depth : Nat) : List Char → Except Malformed (List Char × List Char)
  | [] => .error .unclosedLayout
  | c :: s =>
    if c == '\x7d' then
      match depth with
      | 0 => .ok ([], s)
      | d + 1 => (takeLayout d s).map fun (layout, rest) => (c :: layout, rest)
    else
      let depth := if c == '\x7b' then depth + 1 else depth
      (takeLayout depth s).map fun (layout, rest) => (c :: layout, rest)

/-- The layout of a slot of which the rest is read. -/
def withLayout (field : List Char) (form : Option Char) (s : List Char) :
    Except Malformed (Slot × List Char) :=
  (takeLayout 0 s).map fun (layout, rest) => (⟨field, form, layout⟩, rest)

/-- The form of a slot, and what follows the slot. -/
def withForm (field : List Char) : List Char → Except Malformed (Slot × List Char)
  | [] => .error .noForm
  | [_] => .error .unclosedLayout
  | form :: '\x7d' :: rest => .ok (⟨field, some form, []⟩, rest)
  | form :: ':' :: rest => withLayout field (some form) rest
  | _ => .error .noLayoutAfterForm

/-- A slot whose opening brace is read, and what follows it. -/
def takeSlot (s : List Char) : Except Malformed (Slot × List Char) :=
  match takeField false s with
  | .error m => .error m
  | .ok (field, stop, rest) =>
    if stop == '!' then withForm field rest
    else if stop == ':' then withLayout field none rest
    else .ok (⟨field, none, []⟩, rest)

theorem map_eq_ok {α β ε : Type} {f : α → β} {r : Except ε α} {b : β}
    (h : r.map f = .ok b) : ∃ a, r = .ok a ∧ f a = b := by
  cases r with
  | error e => exact absurd h (by simp [Except.map])
  | ok a => exact ⟨a, rfl, by simpa [Except.map] using h⟩

theorem length_takeField {inItem : Bool} {s field rest : List Char} {stop : Char}
    (h : takeField inItem s = .ok (field, stop, rest)) : rest.length < s.length := by
  induction s generalizing inItem field with
  | nil => simp [takeField] at h
  | cons c s ih =>
    have hmap : ∀ {b : Bool}, (takeField b s).map (fun p => (c :: p.1, p.2.1, p.2.2)) =
        .ok (field, stop, rest) → rest.length < (c :: s).length := by
      intro b hb
      obtain ⟨⟨field', stop', rest'⟩, hp, hq⟩ := map_eq_ok hb
      obtain ⟨-, rfl, rfl⟩ := by simpa using hq
      exact Nat.lt_succ_of_lt (ih hp)
    unfold takeField at h
    split at h
    · exact hmap h
    · split at h
      · exact absurd h (by simp)
      · split at h
        · obtain ⟨-, -, rfl⟩ := by simpa using h
          simp
        · exact hmap h

theorem length_takeLayout {depth : Nat} {s layout rest : List Char}
    (h : takeLayout depth s = .ok (layout, rest)) : rest.length < s.length := by
  induction s generalizing depth layout with
  | nil => simp [takeLayout] at h
  | cons c s ih =>
    have hmap : ∀ {d : Nat}, (takeLayout d s).map (fun p => (c :: p.1, p.2)) =
        .ok (layout, rest) → rest.length < (c :: s).length := by
      intro d hd
      obtain ⟨⟨layout', rest'⟩, hp, hq⟩ := map_eq_ok hd
      obtain ⟨-, rfl⟩ := by simpa using hq
      exact Nat.lt_succ_of_lt (ih hp)
    unfold takeLayout at h
    split at h
    · split at h
      · obtain ⟨-, rfl⟩ := by simpa using h
        simp
      · exact hmap h
    · exact hmap h

theorem length_withLayout {field s rest : List Char} {form : Option Char} {slot : Slot}
    (h : withLayout field form s = .ok (slot, rest)) : rest.length < s.length := by
  obtain ⟨⟨layout, rest'⟩, hp, hq⟩ := map_eq_ok h
  obtain ⟨-, rfl⟩ := by simpa using hq
  exact length_takeLayout hp

theorem length_withForm {field s rest : List Char} {slot : Slot}
    (h : withForm field s = .ok (slot, rest)) : rest.length < s.length := by
  unfold withForm at h
  split at h
  · exact absurd h (by simp)
  · exact absurd h (by simp)
  · obtain ⟨-, rfl⟩ := by simpa using h
    simp only [List.length_cons]
    omega
  · have hl := length_withLayout h
    simp only [List.length_cons]
    omega
  · exact absurd h (by simp)

theorem length_takeSlot {s rest : List Char} {slot : Slot}
    (h : takeSlot s = .ok (slot, rest)) : rest.length < s.length := by
  unfold takeSlot at h
  split at h
  · exact absurd h (by simp)
  · rename_i field stop r hfield
    have hr := length_takeField hfield
    split at h
    · exact Nat.lt_trans (length_withForm h) hr
    · split at h
      · exact Nat.lt_trans (length_withLayout h) hr
      · obtain ⟨-, rfl⟩ := by simpa using h
        exact hr

/-- **The pieces of a template.** Nothing is read after a fault. -/
def pieces (s : List Char) : List Piece :=
  match s with
  | [] => []
  | '\x7b' :: '\x7b' :: s => .literal '\x7b' :: pieces s
  | '\x7d' :: '\x7d' :: s => .literal '\x7d' :: pieces s
  | '\x7d' :: _ => [.fault .loneClosing]
  | ['\x7b'] => [.fault .loneOpening]
  | '\x7b' :: s =>
    match h : takeSlot s with
    | .error m => [.fault m]
    | .ok (slot, rest) =>
      have := length_takeSlot h
      .slot slot :: pieces rest
  | c :: s => .literal c :: pieces s
termination_by s.length

end LambdaTrace.Template
