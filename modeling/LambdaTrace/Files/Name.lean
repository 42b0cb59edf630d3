/-!
# File names

File names are texts of parts between slashes. They are put together and brought
into a normal form by looking at the text alone: empty parts and `.` are dropped,
and `..` takes away the part before it. An absolute name starts with a slash;
exactly two slashes in front are kept as they are.
-/

namespace LambdaTrace

namespace FileName

/-- The parts of a name between its slashes, which may be empty. -/
def parts : List Char → List (List Char)
  | [] => [[]]
  | '/' :: s => [] :: parts s
  | c :: s =>
    match parts s with
    | [] => [[c]]
    | p :: ps => (c :: p) :: ps

/-- Adds a part to the parts kept so far, the last one first. -/
def push (rooted : Bool) (kept : List (List Char)) (part : List Char) : List (List Char) :=
  if part.isEmpty || part == ['.'] then kept
  else if part == ['.', '.'] then
    match kept with
    | [] => if rooted then [] else [part]
    | last :: rest => if last == ['.', '.'] then part :: kept else rest
  else part :: kept

/-- The number of slashes kept in front of a name. -/
def rootSlashes : List Char → Nat
  | '/' :: '/' :: '/' :: _ => 1
  | '/' :: '/' :: _ => 2
  | '/' :: _ => 1
  | _ => 0

/-- Parts with slashes between them. -/
def joinParts (ps : List (List Char)) : List Char :=
  ['/'].intercalate ps

/-- The normal form of a name. -/
def normalizeChars (s : List Char) : List Char :=
  let slashes := rootSlashes s
  let kept := ((parts s).foldl (push (slashes != 0)) []).reverse
  match List.replicate slashes '/' ++ joinParts kept with
  | [] => ['.']
  | name => name

/-- **The normal form** of a name. -/
def normalize (name : String) : String :=
  String.ofList (normalizeChars name.toList)

/-- A name as seen from a directory; an absolute name is what it is. -/
def joinChars (dir name : List Char) : List Char :=
  match name with
  | '/' :: _ => name
  | _ =>
    match dir.getLast? with
    | none => name
    | some '/' => dir ++ name
    | some _ => dir ++ '/' :: name

/-- A name as seen from a directory; an absolute name is what it is. -/
def join (dir name : String) : String :=
  String.ofList (joinChars dir.toList name.toList)

/-- The directory of a file: the name up to its last slash, without that slash
unless nothing but slashes is left. -/
def directoryChars (s : List Char) : List Char :=
  let head := (s.reverse.dropWhile (· != '/')).reverse
  if head.all (· == '/') then head else (head.reverse.dropWhile (· == '/')).reverse

/-- The directory of a file. -/
def directory (name : String) : String :=
  String.ofList (directoryChars name.toList)

end FileName

end LambdaTrace
