import LambdaTrace.Files.Name

/-!
# Files

The files a session can read, as the system finds them, and the directory that relative
names are seen from. Every file that can be read is a text. Which one stands under a name
is the system's business: a name is looked up as it is written, and a detour by a
directory that does not exist need not lead to the same file as the normal form of the
name. What is relied on is that there are only finitely many files under all names,
counted by their absolute names in normal form.

A name with a null character in it is never looked up. No file has it, but opening it is
not answered like opening a file that does not exist (`LambdaTrace.OpenFault`).
-/

namespace LambdaTrace

/-- Why a file is not opened. -/
inductive OpenFault where
  /-- The system finds no file under the name, or does not let it be read. -/
  | notFound
  /-- The name has a null character in it, and the system is not asked. -/
  | nullInName
  deriving DecidableEq

/-- **The files of a system**: a working directory, the absolute names in normal form
of the files there are, and the text that is found under a name as it is written. -/
structure Files where
  directory : String
  names : List String
  find? : String → Option String
  mem_names : ∀ {name text}, find? name = some text →
    FileName.normalize (FileName.join directory name) ∈ names

namespace Files

instance : Inhabited Files :=
  ⟨⟨"/", [], fun _ => none, by simp⟩⟩

/-- The absolute name of a file, in normal form. -/
def absolute (files : Files) (name : String) : String :=
  FileName.normalize (FileName.join files.directory name)

/-- **Opens a file** under a name as it is written, and reads its text. -/
def read (files : Files) (name : String) : Except OpenFault String :=
  if '\x00' ∈ name.toList then .error .nullInName
  else
    match files.find? name with
    | none => .error .notFound
    | some text => .ok text

/-- The name of a file that another file imports: as seen from the directory of the
importing file. -/
def imported (files : Files) (importer name : String) : String :=
  FileName.join (FileName.directory (files.absolute importer)) name

/-- A file that can be opened is one of the files there are. -/
theorem absolute_mem_names {files : Files} {name text : String}
    (h : files.read name = .ok text) : files.absolute name ∈ files.names := by
  unfold read at h
  split at h
  · cases h
  · split at h
    · cases h
    · rename_i hfind
      exact files.mem_names hfind

/-- **Files given by their texts**, each of which is opened under one absolute name. -/
def ofContents (directory : String) (contents : List (String × String)) : Files where
  directory
  names := (contents.map (·.1)).map FileName.normalize
  find? name := contents.lookup (FileName.join directory name)
  mem_names h := by
    obtain ⟨before, after, heq, -⟩ := List.lookup_eq_some_iff.mp h
    simp [heq]

end Files

end LambdaTrace
