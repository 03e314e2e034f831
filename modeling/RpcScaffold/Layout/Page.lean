import RpcScaffold.Layout.Code
import RpcScaffold.Fault

/-!
# Pages

A page collects rendered lines and knows how many blocks are open on it. Lines are
only ever added, and the text of a page can be taken when no block is open.
-/
namespace RpcScaffold

structure Page where
  indent : String := "    "
  depth : Nat := 0
  lines : List String := []
  deriving Repr, DecidableEq

namespace Page

/-- Writes code inside the blocks that are open. -/
def append (p : Page) (code : Code) : Page :=
  { p with lines := p.lines ++ code.render p.indent p.depth }

def write (p : Page) (text : String) : Page :=
  p.append (Code.line text)

/-- Writes a heading and opens the block below it. -/
def openBlock (p : Page) (heading : String) : Page :=
  { p.write heading with depth := p.depth + 1 }

/-- Leaves the innermost open block. -/
def closeBlock (p : Page) : Page :=
  { p with depth := p.depth - 1 }

/-- Leaves every open block. -/
def closeAll (p : Page) : Page :=
  { p with depth := 0 }

def text (p : Page) : Except Fault String :=
  if p.depth = 0 then .ok (Text.ofLines p.lines) else .error .openBlocks

theorem append_append (p : Page) (first second : Code) :
    (p.append first).append second = p.append (first ++ second) := by
  simp [append, Code.render_append]

theorem text_eq_error_iff (p : Page) : p.text = .error .openBlocks ↔ p.depth ≠ 0 := by
  rw [text]
  split <;> simp_all

end Page

end RpcScaffold
