import RpcScaffold.Draft.Emission
import RpcScaffold.Proofs.PageStrokes
import RpcScaffold.Proofs.Steps

/-!
# Code stands anywhere on a page

Code that is written inside open blocks has the lines that it would have on a new page, moved
to the right; what was on the page stays, and as many blocks are open as before. This holds for
every indent, also for an empty one, and for services and single fragments alike.

That code is added in one go is no restriction: a line is added as it is written, and a block as
its heading and its body are when the block is entered and left. So every fragment is a run of
strokes, the same on all pages, and so are the classes of a service.
-/
namespace RpcScaffold

namespace Text

/-- A line behind a margin; an empty line stays empty. -/
def moved (margin line : String) : String := if line = "" then "" else margin ++ line

theorem times_add (s : String) (m n : Nat) : times s (m + n) = times s m ++ times s n := by
  induction m with
  | zero => simp [times]
  | succ m ih => rw [Nat.succ_add, times, times, ih, String.append_assoc]

end Text

/-- Levels that a line has of its own come after those of the place where it stands. -/
theorem Line.render_eq_moved (indent : String) (base : Nat) (l : Line) :
    l.render indent base = Text.moved (Text.times indent base) (l.render indent 0) := by
  by_cases empty : l.text = ""
  · simp [Line.render, Text.moved, empty]
  · have visible : Text.times indent (0 + l.depth) ++ l.text ≠ "" := by
      intro nothing
      exact empty (String.append_eq_empty_iff.mp nothing).2
    rw [Line.render, if_neg empty, Line.render, if_neg empty, Text.moved, if_neg visible,
      Text.times_add, Nat.zero_add, String.append_assoc]

theorem Code.render_eq_moved (indent : String) (base : Nat) (code : Code) :
    code.render indent base = (code.render indent 0).map (Text.moved (Text.times indent base)) := by
  rw [Code.render, Code.render, List.map_map]
  apply List.map_congr_left
  intro l _
  exact l.render_eq_moved indent base

namespace Page

/-- A page with the same indent on which nothing has been written. -/
def fresh (p : Page) : Page := { indent := p.indent }

/-- The lines of another page are put below those of this one, inside the blocks that are open. -/
def place (p q : Page) : Page :=
  { p with lines := p.lines ++ q.lines.map (Text.moved (Text.times p.indent p.depth)) }

theorem append_eq_place (p : Page) (code : Code) :
    p.append code = p.place (p.fresh.append code) := by
  rw [append, code.render_eq_moved, place, append, fresh, List.nil_append]

/-- Code with blocks is added as if the page had been written line by line. -/
theorem append_block (p : Page) (heading : String) (body : Code) :
    p.append (Code.block heading body) = ((p.openBlock heading).append body).closeBlock := by
  rw [append, Code.render_block]
  simp [openBlock, closeBlock, write, append, Code.line, Code.render]

end Page

/-- The strokes that write code: one for every line, and for a block those of its body between
entering and leaving it. -/
inductive Code.Drawn : Code → List Page.Stroke → Prop where
  | nil : Drawn [] []
  | line (text : String) : Drawn (Code.line text) [.write text]
  | append {first second : Code} {strokes more : List Page.Stroke} (hfirst : Drawn first strokes)
    (hsecond : Drawn second more) : Drawn (first ++ second) (strokes ++ more)
  | block (heading : String) {body : Code} {strokes : List Page.Stroke}
    (hbody : Drawn body strokes) :
    Drawn (Code.block heading body) (.enter heading :: strokes ++ [.leave])

/-- Code is added to a page as if it were written stroke by stroke. -/
theorem Code.Drawn.append_eq {code : Code} {strokes : List Page.Stroke} (h : code.Drawn strokes)
    (p : Page) : p.append code = strokes.foldl Page.stroke p := by
  induction h generalizing p with
  | nil => simp [Page.append, Code.render]
  | line text => rfl
  | append hfirst hsecond first second =>
    rw [← Page.append_append, List.foldl_append, first, second]
  | block heading hbody body =>
    rw [Page.append_block, body, List.cons_append, List.foldl_cons, List.foldl_append]
    rfl

namespace Code

/-- Strokes that are put together as the code is may be listed in one go. -/
theorem Drawn.of_eq {code : Code} {strokes more : List Page.Stroke} (h : code.Drawn strokes)
    (same : strokes = more) : code.Drawn more :=
  same ▸ h

theorem Drawn.lines (texts : List String) : (Code.lines texts).Drawn (texts.map .write) := by
  induction texts with
  | nil => exact .nil
  | cons text texts ih => exact Drawn.append (.line text) ih

/-- Code that is written by strokes at all. -/
def Drawable (code : Code) : Prop := ∃ strokes, code.Drawn strokes

namespace Drawable

theorem nil : Drawable [] := ⟨[], .nil⟩

theorem line (text : String) : Drawable (Code.line text) := ⟨[.write text], .line text⟩

theorem append {first second : Code} (hfirst : Drawable first) (hsecond : Drawable second) :
    Drawable (first ++ second) := by
  obtain ⟨strokes, written⟩ := hfirst
  obtain ⟨more, below⟩ := hsecond
  exact ⟨strokes ++ more, written.append below⟩

theorem block (heading : String) {body : Code} (hbody : Drawable body) :
    Drawable (Code.block heading body) := by
  obtain ⟨strokes, written⟩ := hbody
  exact ⟨_, written.block heading⟩

theorem flatMap {α : Type} {items : List α} {write : α → Code}
    (each : ∀ a ∈ items, Drawable (write a)) : Drawable (items.flatMap write) := by
  induction items with
  | nil => exact nil
  | cons a items ih =>
    rw [List.flatMap_cons]
    exact (each a List.mem_cons_self).append (ih fun b hb => each b (List.mem_cons_of_mem a hb))

end Drawable

end Code

namespace Method

open Heading Vocabulary

variable (m : Method) (s : Signature)

theorem drawn_clientDescriptor :
    (m.clientDescriptor s).Drawn
      [.enter (m.descriptor ++ " = " ++ clientMethod ++ "("),
        .write (Text.quote m.path ++ ","),
        .write (s.requestSerializer ++ ","),
        .write (s.responseDeserializer ++ ","),
        .leave,
        .write ")"] :=
  .of_eq (.append (.block _ (.lines [_, _, _])) (.line _)) rfl

theorem drawn_clientStub :
    (m.clientStub s).Drawn
      ([.write "",
        .enter (Definition.text
          { name := m.handler, parameters := ["self", "request: " ++ s.argument],
            result := s.clientResult }),
        .write ("call = " ++ clientCall ++ "(self._channel, self." ++ m.descriptor ++ ")")] ++
      (if m.rpc.streaming.client then [.write "call.request.pipe(request)"]
      else [.write "call.request.add(request)", .write "call.request.close()"]) ++
      [.write ("return " ++ m.receiveResponse ++ "(call)"), .leave]) := by
  rw [clientStub, sendRequest]
  split
  · exact .of_eq (.append (.line _) (.block _ (.lines [_, _, _]))) rfl
  · exact .of_eq (.append (.line _) (.block _ (.lines [_, _, _, _]))) rfl

theorem drawn_registration :
    (m.registration s).Drawn
      [.enter "self.add_method(",
        .enter (serviceMethod ++ "("),
        .write (Text.quote m.rpc.name ++ ","),
        .write ("self." ++ m.entryPoint ++ ","),
        .write (truth m.rpc.streaming.client ++ ","),
        .write (truth m.rpc.streaming.server ++ ","),
        .write (s.requestDeserializer ++ ","),
        .write (s.responseSerializer ++ ","),
        .leave,
        .write ")",
        .leave,
        .write ")"] :=
  .of_eq (.append (.block _ (.append (.block _ (.lines [_, _, _, _, _, _])) (.line _))) (.line _))
    rfl

theorem drawn_adapterCode :
    (m.adapterCode s).Drawn
      (if m.hasAdapter then
        .enter (Definition.text
          { name := m.adapter
            parameters := ["self", "call: " ++ serviceCall, "request: " ++ s.pendingRequest]
            result := if m.rpc.streaming.server then s.serverResult else s.response
            async := true }) ::
        (if m.rpc.streaming.server then
          [.enter ("async for response in " ++ m.forward ++ ":"), .write "yield response", .leave]
        else [.write ("return await " ++ m.forward)]) ++
        [.leave, .write ""]
      else []) := by
  rw [adapterCode]
  split
  · split
    · exact .of_eq (.append (.block _ (.block _ (.line _))) (.line _)) rfl
    · exact .of_eq (.append (.block _ (.line _)) (.line _)) rfl
  · exact .nil

theorem drawn_abstractHandler :
    (m.abstractHandler s).Drawn
      [.write (decorator abstractMethod []),
        .write (Definition.text
          { name := m.handler
            parameters := ["self", "call: " ++ serviceCall, "request: " ++ s.argument]
            result := s.serverResult
            stub := true })] :=
  .lines _

/-- The pieces of code that a method contributes to the classes of its service. -/
def fragments (m : Method) (s : Signature) : List Code :=
  [m.clientDescriptor s, m.clientStub s, m.registration s, m.adapterCode s, m.abstractHandler s]

end Method

namespace ServiceNames

variable (n : ServiceNames) (methods : List TypedMethod)

theorem drawable_gapAfter {α : Type} (items : List α) : (gapAfter items).Drawable := by
  rw [gapAfter]
  split
  · exact .nil
  · exact .line _

theorem drawable_separated {codes : List Code} (each : ∀ code ∈ codes, code.Drawable) :
    (separated codes).Drawable := by
  cases codes with
  | nil => exact .nil
  | cons first others =>
    rw [separated_cons]
    refine (each first List.mem_cons_self).append (.flatMap fun code later => ?_)
    exact (Code.Drawable.line "").append (each code (List.mem_cons_of_mem first later))

theorem drawable_clientCode : (n.clientCode methods).Drawable := by
  refine .block _ (.append (.append (.append (.append (.append ?_ ?_) (.line _)) (.line _)) ?_) ?_)
  · exact .flatMap fun m _ => ⟨_, m.method.drawn_clientDescriptor m.signature⟩
  · exact drawable_gapAfter methods
  · exact .block _ (.line _)
  · exact .flatMap fun m _ => ⟨_, m.method.drawn_clientStub m.signature⟩

theorem drawable_serverCode : (n.serverCode methods).Drawable := by
  refine .block _ (.append (.append (.append (.append (.append (.append (.line _) ?_) (.line _))
    ?_) ?_) ?_) ?_)
  · exact .block _ (.line _)
  · refine .block _ (.append (.line _) ?_)
    exact .flatMap fun m _ => ⟨_, m.method.drawn_registration m.signature⟩
  · exact drawable_gapAfter methods
  · exact .flatMap fun m _ => ⟨_, m.method.drawn_adapterCode m.signature⟩
  · refine drawable_separated ?_
    intro code hc
    obtain ⟨m, _, rfl⟩ := List.mem_map.mp hc
    exact ⟨_, m.method.drawn_abstractHandler m.signature⟩

theorem drawable_code : (n.code methods).Drawable :=
  ((n.drawable_clientCode methods).append ((Code.Drawable.line "").append (.line ""))).append
    (n.drawable_serverCode methods)

end ServiceNames

/-- A draft can be emitted on no page, or is emitted by the same strokes on all of them. -/
theorem Draft.emit_drawn (d : Draft) :
    (∃ fault, ∀ p, d.emit p = .error fault) ∨
      ∃ code strokes, d.code = .ok code ∧ code.Drawn strokes ∧
        ∀ p, d.emit p = .ok ({ d with phase := .emitted }, strokes.foldl Page.stroke p) := by
  by_cases permitted : d.permits .generate = true
  · cases coded : d.code with
    | error fault => exact Or.inl ⟨fault, fun p => by rw [emit, if_pos permitted, coded]⟩
    | ok code =>
      obtain ⟨methods, _, same⟩ := bind_eq_ok coded
      cases same
      obtain ⟨strokes, drawn⟩ := d.names.drawable_code methods
      refine Or.inr ⟨_, strokes, rfl, drawn, fun p => ?_⟩
      rw [emit, if_pos permitted, coded, ← drawn.append_eq p]
  · exact Or.inl ⟨d.outOfPhase .generate, fun p => by rw [emit, if_neg permitted]⟩

/-- A page gets the lines that a new one would get, moved to the right, and a draft that cannot
be emitted there cannot be emitted anywhere. The same goes for the fragments of any method. -/
theorem Draft.emit_anywhere (d : Draft) (p : Page) :
    d.emit p = (d.emit p.fresh).map (fun (later, page) => (later, p.place page)) ∧
      (∀ (m : Method) (s : Signature), ∀ code ∈ m.fragments s,
        p.append code = p.place (p.fresh.append code)) ∧
      ∀ heading body,
        p.append (Code.block heading body) = ((p.openBlock heading).append body).closeBlock := by
  refine ⟨?_, fun m s code _ => p.append_eq_place code, p.append_block⟩
  by_cases permitted : d.permits .generate = true
  · rw [emit, if_pos permitted, emit, if_pos permitted]
    cases d.code with
    | error fault => rfl
    | ok code => simp only [Except.map, ← p.append_eq_place]
  · rw [emit, if_neg permitted, emit, if_neg permitted]
    rfl

example :
    (⟨"\t", 2, ["first"]⟩ : Page).append (Code.block "if a:" (Code.line "b" ++ Code.blank)) =
      ⟨"\t", 2, ["first", "\t\tif a:", "\t\t\tb", ""]⟩ := by
  decide

end RpcScaffold
