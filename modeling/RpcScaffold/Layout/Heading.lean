import RpcScaffold.Text.Basic

/-!
# Headings

The one-line forms of the generated language: applied generics, decorators, and the
headings of classes and functions. Empty parameters are left out everywhere; a class
or decorator has parentheses exactly when its parameter list is not empty, even if
nothing of it is left to write.
-/
namespace RpcScaffold.Heading

/-- A generic type applied to its arguments. -/
def generic (name : String) (arguments : List String) : String :=
  name ++ "[" ++ Text.commaList arguments ++ "]"

def parenthesized (parameters : List String) : String :=
  if parameters.isEmpty then "" else "(" ++ Text.commaList parameters ++ ")"

def decorator (name : String) (parameters : List String) : String :=
  "@" ++ name ++ parenthesized parameters

def classHeading (name : String) (bases : List String) : String :=
  "class " ++ name ++ parenthesized bases ++ ":"

structure Definition where
  name : String
  parameters : List String := []
  result : String := "None"
  async : Bool := false
  /-- A stub has its empty body on the line of the heading. -/
  stub : Bool := false
  deriving Repr, DecidableEq

def Definition.text (f : Definition) : String :=
  (if f.async then "async def " else "def ") ++ f.name ++ "(" ++ Text.commaList f.parameters ++
    ") -> " ++ f.result ++ ":" ++ (if f.stub then " ..." else "")

end RpcScaffold.Heading
