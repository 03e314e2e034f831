import RpcScaffold.Layout.Page
import RpcScaffold.Proofs.Cutting

/-!
# Pages stroke by stroke

A page is worked on in strokes: a line is written, a block is entered below its heading, the
innermost block is left, all open blocks are abandoned by a failure, or the text is asked for.
In whatever order this happens, the depth of the page is the number of blocks that were entered
and not left, every stroke adds the line that its text makes at this depth or none, and the text
of a page without open blocks can be cut into its lines again.

The blocks that are open are told from the strokes alone. To leave a block when none is open is
not excluded; it changes nothing.
-/
namespace RpcScaffold

/-- Lines that are closed one by one are the pieces before the last, which is empty. -/
theorem Text.pieces_ofLines {lines : List String} (h : ∀ line ∈ lines, '\n' ∉ line.toList) :
    pieces '\n' (ofLines lines) = lines ++ [""] := by
  induction lines with
  | nil => rfl
  | cons line lines ih =>
    have first : pieces '\n' line = [line] := by
      rw [pieces, cut_of_notMem (h line List.mem_cons_self)]
      simp
    have rest := ih fun other member => h other (List.mem_cons_of_mem line member)
    change pieces '\n' (line ++ String.singleton '\n' ++ ofLines lines) = _
    rw [pieces_append, first, rest]
    rfl

namespace Page

inductive Stroke where
  | write (text : String)
  | enter (heading : String)
  | leave
  | abandon
  /-- The text is asked for, which may be refused. -/
  | look

namespace Stroke

/-- The text that the stroke puts on the page. -/
def text? : Stroke → Option String
  | write text => some text
  | enter heading => some heading
  | leave | abandon | look => none

/-- The lines that the stroke adds inside a number of open blocks. -/
def added (indent : String) (blocks : Nat) (s : Stroke) : List String :=
  s.text?.toList.map fun text => if text = "" then "" else Text.times indent blocks ++ text

/-- The headings of the open blocks, innermost first, after a stroke. -/
def blocks (opened : List String) : Stroke → List String
  | write _ | look => opened
  | enter heading => heading :: opened
  | leave => opened.tail
  | abandon => []

end Stroke

/-- The headings of the blocks that were entered and neither left nor abandoned. -/
def openBlocks (strokes : List Stroke) : List String := strokes.foldl Stroke.blocks []

def stroke (p : Page) : Stroke → Page
  | .write text => p.write text
  | .enter heading => p.openBlock heading
  | .leave => p.closeBlock
  | .abandon => p.closeAll
  | .look => p

/-- The page on which nothing but the strokes was made. -/
def drawn (indent : String) (strokes : List Stroke) : Page :=
  strokes.foldl stroke { indent := indent }

/-- No line of the page has a line feed in it. -/
def Unbroken (p : Page) : Prop := ∀ line ∈ p.lines, '\n' ∉ line.toList

theorem lines_write (p : Page) (text : String) :
    (p.write text).lines =
      p.lines ++ [if text = "" then "" else Text.times p.indent p.depth ++ text] := by
  simp [write, append, Code.line, Code.render, Line.render]

theorem indent_stroke (p : Page) (s : Stroke) : (p.stroke s).indent = p.indent := by
  cases s <;> rfl

theorem depth_stroke {p : Page} {opened : List String} (h : p.depth = opened.length) (s : Stroke) :
    (p.stroke s).depth = (s.blocks opened).length := by
  cases s with
  | write text => exact h
  | enter heading => exact congrArg (· + 1) h
  | leave =>
    rw [Stroke.blocks, List.length_tail, ← h]
    rfl
  | abandon => rfl
  | look => exact h

theorem lines_stroke (p : Page) (s : Stroke) :
    (p.stroke s).lines = p.lines ++ s.added p.indent p.depth := by
  cases s with
  | write text => exact p.lines_write text
  | enter heading => exact p.lines_write heading
  | leave => exact (List.append_nil _).symm
  | abandon => exact (List.append_nil _).symm
  | look => exact (List.append_nil _).symm

theorem drawn_append (indent : String) (strokes more : List Stroke) :
    drawn indent (strokes ++ more) = more.foldl stroke (drawn indent strokes) :=
  List.foldl_append

theorem indent_foldl (p : Page) (strokes : List Stroke) :
    (strokes.foldl stroke p).indent = p.indent := by
  induction strokes generalizing p with
  | nil => rfl
  | cons s strokes ih => exact (ih (p.stroke s)).trans (p.indent_stroke s)

theorem depth_foldl {p : Page} {opened : List String} (h : p.depth = opened.length)
    (strokes : List Stroke) :
    (strokes.foldl stroke p).depth = (strokes.foldl Stroke.blocks opened).length := by
  induction strokes generalizing p opened with
  | nil => exact h
  | cons s strokes ih => exact ih (depth_stroke h s)

theorem lines_foldl (p : Page) (strokes : List Stroke) :
    p.lines <+: (strokes.foldl stroke p).lines := by
  induction strokes generalizing p with
  | nil => exact List.prefix_rfl
  | cons s strokes ih =>
    have first : p.lines <+: (p.stroke s).lines := by
      rw [lines_stroke]
      exact List.prefix_append _ _
    exact first.trans (ih (p.stroke s))

theorem indent_drawn (indent : String) (strokes : List Stroke) :
    (drawn indent strokes).indent = indent :=
  indent_foldl _ strokes

theorem depth_drawn (indent : String) (strokes : List Stroke) :
    (drawn indent strokes).depth = (openBlocks strokes).length :=
  depth_foldl rfl strokes

/-- To leave as many blocks as are open is to leave all of them. -/
theorem foldl_leave (p : Page) : (List.replicate p.depth .leave).foldl stroke p = p.closeAll := by
  obtain ⟨indent, depth, lines⟩ := p
  -- The first block that is left takes the page to the one that the induction is about.
  induction depth with
  | zero => rfl
  | succ depth ih => exact ih

theorem text_of_depth {p : Page} (h : p.depth = 0) : p.text = .ok (Text.ofLines p.lines) := by
  rw [text, if_pos h]

theorem text_eq_ok {p : Page} {text : String} (h : p.text = .ok text) :
    text = Text.ofLines p.lines := by
  rw [Page.text] at h
  split at h
  · exact (Except.ok.inj h).symm
  · cases h

/-- Two pages without line feeds in their lines have the same text only when they have the same
lines. -/
theorem lines_eq_of_text {p q : Page} (hp : p.Unbroken) (hq : q.Unbroken) {text : String}
    (first : p.text = .ok text) (second : q.text = .ok text) : p.lines = q.lines := by
  have cut := Text.pieces_ofLines hp
  rw [← text_eq_ok first, text_eq_ok second, Text.pieces_ofLines hq] at cut
  exact (List.append_cancel_right cut).symm

/-- After any strokes, the depth is the number of blocks that are open; a next stroke adds its
line at this depth, if it has one, and nothing is ever taken away; blocks that a failure leaves
together are left as if one by one. The text is refused exactly while a block is open, and to
ask for it changes nothing that comes after. When no line has a line feed in it, the text is
cut into the lines and an empty rest, so pages with one text have the same lines. -/
theorem true_to_strokes (indent : String) (strokes : List Stroke) :
    (drawn indent strokes).depth = (openBlocks strokes).length ∧
    (∀ s, (drawn indent (strokes ++ [s])).lines =
      (drawn indent strokes).lines ++ s.added indent (openBlocks strokes).length) ∧
    (∀ more, (drawn indent strokes).lines <+: (drawn indent (strokes ++ more)).lines) ∧
    drawn indent (strokes ++ [.abandon]) =
      drawn indent (strokes ++ List.replicate (openBlocks strokes).length .leave) ∧
    ((drawn indent strokes).text = .error .openBlocks ↔ openBlocks strokes ≠ []) ∧
    (∀ more, drawn indent (strokes ++ .look :: more) = drawn indent (strokes ++ more)) ∧
    (openBlocks strokes = [] → ∃ text, (drawn indent strokes).text = .ok text ∧
      ((drawn indent strokes).Unbroken →
        Text.pieces '\n' text = (drawn indent strokes).lines ++ [""] ∧
        ∀ q : Page, q.Unbroken → q.text = .ok text → q.lines = (drawn indent strokes).lines)) ∧
    (drawn indent []).text ≠ (drawn indent [.write ""]).text := by
  have depth := depth_drawn indent strokes
  refine ⟨depth, ?_, ?_, ?_, ?_, ?_, ?_, ?_⟩
  · intro s
    rw [drawn_append, List.foldl_cons, List.foldl_nil, lines_stroke, indent_drawn, depth]
  · intro more
    rw [drawn_append]
    exact lines_foldl _ more
  · rw [drawn_append, drawn_append, ← depth, foldl_leave]
    rfl
  · rw [text_eq_error_iff, depth, ne_eq, List.length_eq_zero_iff]
  · intro more
    rw [drawn_append, drawn_append]
    rfl
  · intro closed
    have written := text_of_depth (depth.trans (congrArg List.length closed))
    refine ⟨_, written, fun unbroken => ⟨Text.pieces_ofLines unbroken, ?_⟩⟩
    intro q hq same
    exact lines_eq_of_text hq unbroken same written
  · have empty : (drawn indent []).text = .ok "" := rfl
    have blank : (drawn indent [.write ""]).text = .ok "\n" := rfl
    rw [empty, blank]
    exact fun same => absurd (Except.ok.inj same) (by decide)

/-- Headings and lines may be empty, a failure leaves two blocks, and the text is asked for in
vain inside them. -/
theorem true_to_strokes_failing :
    (drawn "\t" [.enter "class A:", .enter "", .look, .write "x", .write ""]).depth = 2 ∧
      (drawn "\t" [.enter "class A:", .enter "", .look, .write "x", .write ""]).text =
        .error .openBlocks ∧
      ∃ text, (drawn "\t" [.enter "class A:", .enter "", .write "x", .abandon, .write ""]).text =
          .ok text ∧
        Text.pieces '\n' text = ["class A:", "", "\t\tx", "", ""] := by
  obtain ⟨depth, _, _, _, refused, _⟩ :=
    true_to_strokes "\t" [.enter "class A:", .enter "", .look, .write "x", .write ""]
  obtain ⟨_, _, _, _, _, _, closed, _⟩ :=
    true_to_strokes "\t" [.enter "class A:", .enter "", .write "x", .abandon, .write ""]
  obtain ⟨text, written, cut⟩ := closed rfl
  have lines : (drawn "\t" [.enter "class A:", .enter "", .write "x", .abandon, .write ""]).lines =
      ["class A:", "", "\t\tx", ""] := by decide +kernel
  have unbroken :
      (drawn "\t" [.enter "class A:", .enter "", .write "x", .abandon, .write ""]).Unbroken := by
    rw [Unbroken, lines]
    decide +kernel
  refine ⟨depth, refused.mpr (by decide), text, written, ?_⟩
  rw [(cut unbroken).1, lines]
  rfl

end Page

end RpcScaffold
