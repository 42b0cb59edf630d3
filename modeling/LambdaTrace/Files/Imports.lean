import LambdaTrace.Files.Store
import LambdaTrace.Statement
import LambdaTrace.Text.Lines

/-!
# What a file imports

The files named by the import statements of a text. Which files a session will ask
for can so be told before it is started, from the texts of the files alone.
-/

namespace LambdaTrace

/-- The file that a statement imports, if it is an import. -/
def Statement.importOf? (line : String) : Option String :=
  match Statement.infer line with
  | .ok s =>
    match s.kind with
    | .importing => some s.importPath
    | _ => none
  | .error _ => none

/-- **The files that a text imports** when it stands in the file of a name. -/
def Files.importedBy (files : Files) (importer text : String) : List String :=
  (Grouping.statements (linesOf text)).filterMap fun (line, _) =>
    (Statement.importOf? line).map (files.imported importer)

end LambdaTrace
