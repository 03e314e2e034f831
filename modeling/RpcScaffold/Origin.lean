import RpcScaffold.Name
import RpcScaffold.Ordered

/-!
# Origins

An origin is the schema file that owns a message type, seen from generated code: the
module that holds its classes and the alias under which other modules import it.
Origins are ordered by module path first, and are equal when all four fields are.
-/
namespace RpcScaffold

structure Origin where
  file : String
  package : String := ""
  modulePath : String := ""
  importAlias : String := ""
  deriving Repr, DecidableEq

namespace Origin

/-- The origin of a file's message classes, with module path and alias derived from its name. -/
def ofFile (file package : String) : Origin :=
  let path := Name.modulePath file Vocabulary.messageModuleSuffix
  ⟨file, package, path, Name.importAlias path⟩

def key (o : Origin) : List String :=
  [o.modulePath, o.file, o.package, o.importAlias]

/-- By module path. Origins with one path have no order of their own; they are put in that of
their files, packages and aliases, and nothing should be read into it. -/
def before (a b : Origin) : Bool :=
  Ordered.listBefore Ordered.textBefore a.key b.key

/-- Types of the reader's own package and of files without a package go by their class name. -/
def unqualifiedFrom (owner reader : Origin) : Bool :=
  owner.package = reader.package || owner.package = ""

end Origin

end RpcScaffold
