import RpcScaffold.Binding
import RpcScaffold.Catalog
import RpcScaffold.Method.Basic
import RpcScaffold.Signature

/-!
# Drafts of a service

A draft is a service on its way to code. Resolving it looks up every type that its
procedures mention: known types become dependencies, unknown names are remembered
with the place that mentioned them first. What resolving found stays on the draft
even when it fails; code is not written before it succeeded.
-/
namespace RpcScaffold

/-- The names that a service has in code. -/
structure ServiceNames where
  full : String
  clientClass : String
  serverClass : String
  deriving Repr, DecidableEq

def ServiceNames.of (name package : String) : ServiceNames :=
  ⟨Name.qualify package name, Name.clientClass name, Name.serverClass name⟩

structure Draft where
  service : Service
  origin : Origin
  dependencies : List Entry := []
  /-- Unknown type names, each with the place that mentioned it first. -/
  unknown : List (String × String) := []
  methods : List Method := []
  phase : Phase := .constructed
  deriving Repr, DecidableEq

namespace Draft

def ofService (service : Service) (origin : Origin) : Draft :=
  { service, origin }

/-- A service without a package of its own takes that of its file. -/
def package (d : Draft) : String :=
  if d.service.package = "" then d.origin.package else d.service.package

def names (d : Draft) : ServiceNames := ServiceNames.of d.service.name d.package

def outOfPhase (d : Draft) (operation : Operation) : Fault :=
  .outOfPhase operation d.names.full d.phase

def permits (d : Draft) (operation : Operation) : Bool :=
  d.phase ∈ operation.allowed

def dependency? (d : Draft) (name : String) : Option Entry :=
  d.dependencies.find? (·.name = name)

/-- Remembers an unknown name; the place of its first mention is kept. -/
def noteUnknown (d : Draft) (name place : String) : Draft :=
  match d.unknown.lookup name with
  | some _ => d
  | none => { d with unknown := d.unknown ++ [(name, place)] }

/-- Looks up a type that the service needs, unless it is a dependency already. -/
def require (d : Draft) (c : Catalog) (name place : String) : Outcome Draft Unit :=
  if d.permits .require then
    match d.dependency? name with
    | some _ => .done d ()
    | none =>
      match c.find? name with
      | none => .done (d.noteUnknown name place) ()
      | some e =>
        match e.check with
        | .error fault => .fail d fault
        | .ok () =>
          ⟨{ d with dependencies := d.dependencies ++ [e] }, [.depends d.names.full e.name], .ok ()⟩
  else .fail d (d.outOfPhase .require)

/-- The request type of a procedure before its response type. -/
def requireRpc (d : Draft) (c : Catalog) (r : Rpc) : Outcome Draft Unit :=
  (d.require c r.request r.requestPlace).andThen fun d _ =>
    d.require c r.response r.responsePlace

def requireRpcs (d : Draft) (c : Catalog) : List Rpc → Outcome Draft Unit
  | [] => .done d ()
  | r :: rs => (d.requireRpc c r).andThen fun d _ => d.requireRpcs c rs

def method (d : Draft) (r : Rpc) : Method := ⟨d.names.full, r⟩

/-- A method for a procedure that the service need not declare; its types become the
service's. -/
def makeMethod (d : Draft) (c : Catalog) (r : Rpc) : Outcome Draft Method :=
  (d.requireRpc c r).andThen fun d _ => .done d (d.method r)

/-! ## Members of the server base -/

/-- The members that every server base has besides those of its methods. -/
def inheritedMembers : Bindings MemberOwner :=
  [(Vocabulary.serviceNameProperty, .serviceName), (Vocabulary.addMethod, .serviceBase)]

def claimMember (serverClass rpc : String) (bound : Bindings MemberOwner) (member : String) :
    Except Fault (Bindings MemberOwner) :=
  (bound.claim member (.rpc rpc)).mapError fun first => .memberClash member serverClass first rpc

def claimMembers (serverClass : String) (bound : Bindings MemberOwner) (m : Method) :
    Except Fault (Bindings MemberOwner) :=
  m.members.foldlM (claimMember serverClass m.rpc.name) bound

/-- Binds the members of methods in order; methods of one procedure may share theirs. -/
def claimMethods (serverClass : String) (methods : List Method) :
    Except Fault (Bindings MemberOwner) :=
  methods.foldlM (claimMembers serverClass) inheritedMembers

/-! ## Resolution -/

def unknownEvents (d : Draft) : List Event :=
  if d.unknown.isEmpty then [] else [.unknownTypes d.names.full (d.unknown.map Prod.fst)]

/-- Settles the methods of a draft whose types have been looked up. -/
def adoptMethods (d : Draft) : Outcome Draft Unit :=
  let methods := d.service.rpcs.map d.method
  match claimMethods d.names.serverClass methods with
  | .error fault => .fail d fault
  | .ok _ => ⟨{ d with methods, phase := .resolved }, d.unknownEvents, .ok ()⟩

/-- Finds all types of the service and checks that its members can be told apart. -/
def resolve (d : Draft) (c : Catalog) : Outcome Draft Unit :=
  if d.permits .resolve then
    (d.requireRpcs c d.service.rpcs).andThen fun d _ => d.adoptMethods
  else .fail d (d.outOfPhase .resolve)

/-! ## What a resolved draft says -/

/-- Joins the origins of the dependencies to an ascending list of origins. -/
def addImports (d : Draft) (imports : List Origin) : Except Fault (List Origin) :=
  if d.permits .collectImports then
    .ok (Ordered.insertAll Origin.before (d.dependencies.map Entry.origin) imports)
  else .error (d.outOfPhase .collectImports)

/-- How the code of this service refers to a message class. -/
def reference (d : Draft) (e : Entry) : String :=
  if e.origin.unqualifiedFrom d.origin then e.className
  else e.origin.importAlias ++ "." ++ e.className

def classReference (d : Draft) (name : String) : Except Fault String :=
  if d.permits .nameClasses then
    match d.dependency? name with
    | some e => .ok (d.reference e)
    | none => .error (.unknownType name (d.unknown.lookup name))
  else .error (d.outOfPhase .nameClasses)

def signature (d : Draft) (m : Method) : Except Fault Signature := do
  let request ← d.classReference m.rpc.request
  let response ← d.classReference m.rpc.response
  return ⟨request, response, m.rpc.streaming⟩

end Draft

end RpcScaffold
