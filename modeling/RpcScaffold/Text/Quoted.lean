import RpcScaffold.Text.Basic

/-!
# Quoted literals

A literal stands between double quotes; a quote or a backslash inside it is preceded
by a backslash. Line breaks are ordinary characters. `read` scans a literal from its
opening quote and says what it denotes and what is left after the closing quote.
-/
namespace RpcScaffold.Text.Quoted

def escapeChar (c : Char) : List Char :=
  if c = '\\' then ['\\', '\\'] else if c = '"' then ['\\', '"'] else [c]

def encode (cs : List Char) : List Char :=
  '"' :: (cs.flatMap escapeChar ++ ['"'])

/-- Scans up to the first quote that no backslash precedes. -/
def scan : List Char → Option (List Char × List Char)
  | [] => none
  | '"' :: rest => some ([], rest)
  | '\\' :: c :: rest => (scan rest).map fun (value, left) => (c :: value, left)
  | '\\' :: [] => none
  | c :: rest => (scan rest).map fun (value, left) => (c :: value, left)

def read : List Char → Option (List Char × List Char)
  | '"' :: rest => scan rest
  | _ => none

end RpcScaffold.Text.Quoted

namespace RpcScaffold.Text

/-- The literal that denotes a text. -/
def quote (s : String) : String :=
  String.ofList (Quoted.encode s.toList)

end RpcScaffold.Text
