import RpcScaffold.Text.Lowercase
import RpcScaffold.Vocabulary

/-!
# Derived names

How the names of classes, members, modules and aliases follow from declared names.
Nothing here assumes that a declared name is an identifier: the rules are total on
texts, and two declared names may well lead to the same derived one.
-/
namespace RpcScaffold.Name

/-- A reserved word gets an underscore, since it could not name anything. -/
def avoidKeyword (name : String) : String :=
  if name ∈ Vocabulary.keywords then name ++ "_" else name

/-- The member that handles a remote procedure: `SayHello` is handled by `sayHello`. -/
def handler (rpc : String) : String :=
  avoidKeyword (Text.lowerFirst rpc)

/-- A name inside a scope; the empty scope leaves it bare. -/
def qualify (scope name : String) : String :=
  if scope = "" then name else scope ++ "." ++ name

/-- The client class of a service; a name that ends in `Client` is kept. -/
def clientClass (service : String) : String :=
  if Text.endsWith service Vocabulary.clientSuffix then service
  else service ++ Vocabulary.clientSuffix

/-- The server base class of a service, whose name has the word `Service` once at its end. -/
def serverClass (service : String) : String :=
  if Text.endsWith service Vocabulary.serviceSuffix then service ++ Vocabulary.baseSuffix
  else service ++ Vocabulary.serviceSuffix ++ Vocabulary.baseSuffix

/-- Type references may be written with a leading dot; the name is what follows it. -/
def undotted (reference : String) : String :=
  match reference.toList with
  | '.' :: rest => String.ofList rest
  | _ => reference

/-- The file stem of the module that belongs to a schema file: `some-file.proto` with the
suffix `_pb2` gives `some_file_pb2`. Hyphens of the suffix are rewritten too. -/
def moduleStem (file suffix : String) : String :=
  Text.mapChars (Text.swapChar '-' '_') <|
    if Text.endsWith file Vocabulary.protoSuffix then
      Text.dropRight file Vocabulary.protoSuffix.length ++ suffix
    else file

/-- The dotted path under which that module is imported. -/
def modulePath (file suffix : String) : String :=
  Text.mapChars (Text.swapChar '/' '.') (moduleStem file suffix)

def aliasChar (c : Char) : List Char :=
  if c = '_' then ['_', '_'] else if c = '.' then ['_', 'd', 'o', 't', '_'] else [c]

/-- The alias of an imported module: underscores are doubled so that a spelled-out dot
cannot be mistaken for a part of the path. -/
def importAlias (path : String) : String :=
  Text.spellChars aliasChar path

/-- The class at module level that holds a possibly nested class. -/
def outermost (className : String) : String :=
  Text.upTo '.' className

end RpcScaffold.Name
