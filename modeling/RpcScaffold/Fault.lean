import RpcScaffold.Lifecycle

/-!
# Faults

Everything that can stop the generation of code, as data, and its wording in one
place.
-/
namespace RpcScaffold

/-- What defines a member of a server base class. -/
inductive MemberOwner where
  | serviceName
  | serviceBase
  | rpc (name : String)
  deriving Repr, DecidableEq

def MemberOwner.label : MemberOwner → String
  | serviceName => "the service name property"
  | serviceBase => "the runtime Service base"
  | rpc name => "RPC " ++ name

inductive Fault where
  /-- A message type is declared by two files, or twice by one. -/
  | duplicateType (name firstFile secondFile : String)
  /-- A message type is used before it was settled. -/
  | unsettledType (name : String)
  /-- Code would refer to a type that is not known; `place` says where it was first needed. -/
  | unknownType (name : String) (place : Option String)
  | outOfPhase (operation : Operation) (service : String) (phase : Phase)
  /-- Two members of a server base class would have one name. -/
  | memberClash (member serverClass : String) (first : MemberOwner) (rpc : String)
  /-- An import would bind a name that generated code reads. -/
  | reservedImport (name modulePath : String)
  /-- Two imports would bind one name. -/
  | importClash (name firstModule secondModule : String)
  /-- The text of a page was asked for inside a block. -/
  | openBlocks
  deriving Repr, DecidableEq

def Fault.message : Fault → String
  | duplicateType name first second =>
    "The type '" ++ name ++ "' is declared in both '" ++ first ++ "' and '" ++ second ++ "'."
  | unsettledType name => "The message type '" ++ name ++ "' has not been resolved yet."
  | unknownType name place =>
    "Unknown type reference (" ++ name ++ ") for " ++ place.getD "None"
  | outOfPhase operation service phase =>
    "Cannot " ++ operation.label ++ " service '" ++ service ++ "' in phase '" ++ phase.label ++
      "' (allowed: " ++ String.intercalate ", " (operation.allowed.map Phase.label) ++ ")."
  | memberClash member serverClass first rpc =>
    "The member '" ++ member ++ "' of '" ++ serverClass ++ "' is defined by both " ++
      first.label ++ " and " ++ (MemberOwner.rpc rpc).label ++ "."
  | reservedImport name path =>
    "The name '" ++ name ++ "' imported from '" ++ path ++
      "' would shadow a name of the generated code."
  | importClash name first second =>
    "The name '" ++ name ++ "' is imported from both '" ++ first ++ "' and '" ++ second ++ "'."
  | openBlocks => "Cannot dump a writer with open blocks."

end RpcScaffold
