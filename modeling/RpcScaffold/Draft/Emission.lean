import RpcScaffold.Draft.Basic
import RpcScaffold.Layout.Page
import RpcScaffold.Method.Fragment

/-!
# The classes of a service

A resolved draft is emitted as a client class and an abstract server base. All class
references are found before the first line is written, so a draft that cannot be
emitted leaves the page as it was.
-/
namespace RpcScaffold

/-- A method with the types that its code is written in. -/
structure TypedMethod where
  method : Method
  signature : Signature
  deriving Repr, DecidableEq

namespace ServiceNames

open Heading Vocabulary

/-- An empty line, unless there is nothing it would set apart. -/
def gapAfter {α : Type} (items : List α) : Code :=
  if items.isEmpty then [] else Code.blank

/-- Pieces of code with an empty line between them. -/
def separated : List Code → Code
  | [] => []
  | [code] => code
  | code :: codes => code ++ Code.blank ++ separated codes

theorem separated_cons (first : Code) (others : List Code) :
    separated (first :: others) = first ++ others.flatMap fun code => Code.blank ++ code := by
  induction others generalizing first with
  | nil => simp [separated]
  | cons second others ih =>
    rw [separated, ih, List.flatMap_cons]
    · simp
    · exact List.cons_ne_nil second others

def clientConstructor : Definition :=
  { name := "__init__", parameters := ["self", "channel: " ++ clientChannel] }

def clientCode (n : ServiceNames) (methods : List TypedMethod) : Code :=
  Code.block (classHeading n.clientClass [])
    (methods.flatMap (fun m => m.method.clientDescriptor m.signature) ++
      gapAfter methods ++
      Code.line ("_channel: " ++ clientChannel) ++
      Code.blank ++
      Code.block clientConstructor.text (Code.line "self._channel = channel") ++
      methods.flatMap (fun m => m.method.clientStub m.signature))

def serviceNameGetter : Definition :=
  { name := serviceNameProperty, parameters := ["self"], result := "str" }

def serverConstructor : Definition :=
  { name := "__init__", parameters := ["self"] }

def serverCode (n : ServiceNames) (methods : List TypedMethod) : Code :=
  Code.block (classHeading n.serverClass [service, abstractBase])
    (Code.line (decorator "property" []) ++
      Code.block serviceNameGetter.text (Code.line ("return " ++ Text.quote n.full)) ++
      Code.blank ++
      Code.block serverConstructor.text
        (Code.line "super().__init__()" ++
          methods.flatMap (fun m => m.method.registration m.signature)) ++
      gapAfter methods ++
      methods.flatMap (fun m => m.method.adapterCode m.signature) ++
      separated (methods.map fun m => m.method.abstractHandler m.signature))

/-- Two empty lines stand between definitions at module level. -/
def moduleGap : Code := Code.blank ++ Code.blank

def code (n : ServiceNames) (methods : List TypedMethod) : Code :=
  n.clientCode methods ++ moduleGap ++ n.serverCode methods

end ServiceNames

namespace Draft

def typedMethod (d : Draft) (m : Method) : Except Fault TypedMethod :=
  (d.signature m).map (TypedMethod.mk m)

/-- The code of a draft, or the first reference that cannot be written. -/
def code (d : Draft) : Except Fault Code := do
  let methods ← d.methods.mapM d.typedMethod
  return d.names.code methods

/-- Writes the classes of a draft to a page; a draft is emitted once. -/
def emit (d : Draft) (p : Page) : Except Fault (Draft × Page) :=
  if d.permits .generate then
    match d.code with
    | .error fault => .error fault
    | .ok code => .ok ({ d with phase := .emitted }, p.append code)
  else .error (d.outOfPhase .generate)

end Draft

end RpcScaffold
