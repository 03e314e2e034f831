/-!
# The vocabulary of generated code

Every fixed name that a generated module uses: the suffixes from which class, member
and module names are built, the private aliases of the modules it imports, and the
names it reads from them. The aliases start with an underscore because declared
identifiers start with a letter, so a declared name cannot rebind them.
-/
namespace RpcScaffold.Vocabulary

/-! ## Files and modules -/

def protoSuffix : String := ".proto"
def messageModuleSuffix : String := "_pb2"
def serviceModuleSuffix : String := "_grpc"
def sourceSuffix : String := ".py"
def defaultRuntimeModule : String := "grpc_runtime"

/-! ## Classes and members -/

def clientSuffix : String := "Client"
def serviceSuffix : String := "Service"
def baseSuffix : String := "Base"
def adapterSuffix : String := "_pre"
def descriptorStem : String := "_method_"
def serviceNameProperty : String := "service_name"
def addMethod : String := "add_method"
def serialize : String := "SerializeToString"
def deserialize : String := "FromString"

/-! ## Module aliases and what is read through them -/

def runtimeAlias : String := "_runtime"
def abstractAlias : String := "_abc"
def collectionsAlias : String := "_collections_abc"

def abstractBase : String := abstractAlias ++ ".ABC"
def abstractMethod : String := abstractAlias ++ ".abstractmethod"

def clientCall : String := runtimeAlias ++ ".ClientCall"
def clientChannel : String := runtimeAlias ++ ".ClientChannel"
def clientMethod : String := runtimeAlias ++ ".ClientMethod"
def responseFuture : String := runtimeAlias ++ ".ResponseFuture"
def responseStream : String := runtimeAlias ++ ".ResponseStream"
def service : String := runtimeAlias ++ ".Service"
def serviceCall : String := runtimeAlias ++ ".ServiceCall"
def serviceMethod : String := runtimeAlias ++ ".ServiceMethod"

def stream : String := collectionsAlias ++ ".AsyncIterator"
def future : String := collectionsAlias ++ ".Awaitable"

/-! ## Names that stay free -/

/-- The names that generated code reads without qualification, ascending. -/
def reserved : List String := ["property", "self", "super"]

/-- The reserved words of the generated language; none of them can name a member. -/
def keywords : List String :=
  ["False", "None", "True", "and", "as", "assert", "async", "await", "break", "class",
    "continue", "def", "del", "elif", "else", "except", "finally", "for", "from", "global",
    "if", "import", "in", "is", "lambda", "nonlocal", "not", "or", "pass", "raise", "return",
    "try", "while", "with", "yield"]

end RpcScaffold.Vocabulary
