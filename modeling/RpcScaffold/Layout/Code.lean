import RpcScaffold.Text.Basic

/-!
# Indented lines of code

Code is a list of lines, each with its depth in the nesting of blocks. A block is a
heading and a body one level deeper. Depths become indentation only when the lines
are rendered; an empty line is rendered without any.
-/
namespace RpcScaffold

structure Line where
  depth : Nat
  text : String
  deriving Repr, DecidableEq

namespace Line

def nest (l : Line) : Line := { l with depth := l.depth + 1 }

/-- The line as it is written when everything is shifted right by `base` levels. -/
def render (indent : String) (base : Nat) (l : Line) : String :=
  if l.text = "" then "" else Text.times indent (base + l.depth) ++ l.text

end Line

abbrev Code := List Line

namespace Code

def line (text : String) : Code := [⟨0, text⟩]

def lines (texts : List String) : Code := texts.map (Line.mk 0)

def blank : Code := line ""

def block (heading : String) (body : Code) : Code :=
  ⟨0, heading⟩ :: body.map Line.nest

def render (indent : String) (base : Nat) (code : Code) : List String :=
  code.map (Line.render indent base)

theorem render_append (indent : String) (base : Nat) (first second : Code) :
    render indent base (first ++ second) = render indent base first ++ render indent base second :=
  List.map_append

/-- The body of a block is rendered as if it stood one level further right. -/
theorem render_block (indent : String) (base : Nat) (heading : String) (body : Code) :
    render indent base (block heading body) =
      Line.render indent base ⟨0, heading⟩ :: render indent (base + 1) body := by
  simp only [render, block, List.map_cons, List.map_map, List.cons.injEq, true_and]
  apply List.map_congr_left
  intro l _
  simp only [Function.comp_apply, Line.render, Line.nest]
  congr 3
  omega

end Code

end RpcScaffold
