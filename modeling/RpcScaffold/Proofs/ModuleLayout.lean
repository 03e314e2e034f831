import Mathlib.Data.List.Forall2
import RpcScaffold.Proofs.ModuleNames
import RpcScaffold.Proofs.Nesting
import RpcScaffold.Proofs.Transcript

/-!
# The layout of a module

A written module has a header and the code of its services. The code is well nested: no block
is empty, nothing is indented but the body of a block, and every call is closed. At the margin
there are only classes, each with exactly two empty lines above it, the first one below the
header too. All of this holds for any number of services and methods, and for names and types
of any kind.
-/
namespace RpcScaffold

open Code

namespace Heading

theorem opensSuite_definition (f : Definition) (noStub : f.stub = false) :
    (⟨0, f.text⟩ : Line).opensSuite = true := by
  have word : Line.suiteWords.any (Text.startsWith (if f.async then "async def " else "def ")) =
      true := by
    split <;> decide
  have colon : (":" ++ if f.stub then " ..." else "") = ":" := by simp [noStub]
  rw [Transcript.text_eq, colon]
  exact Line.opensSuite_of_front 0 word _

/-- A definition with its body on the same line opens no block. -/
theorem isHeading_of_stub (f : Definition) (stub : f.stub = true) :
    (⟨0, f.text⟩ : Line).isHeading = false := by
  rw [Transcript.text_eq, if_pos stub]
  exact Line.isHeading_of_ending 0 _ (by decide) (by decide)

theorem isVisible_of_stub (f : Definition) (stub : f.stub = true) :
    Text.isVisible f.text = true := by
  rw [Transcript.text_eq, if_pos stub]
  exact Text.isVisible_of_ending _ (by decide)

theorem opensSuite_classHeading (name : String) (bases : List String) :
    (⟨0, classHeading name bases⟩ : Line).opensSuite = true := by
  have front : Line.suiteWords.any (Text.startsWith "class ") = true := by decide
  have whole := Line.opensSuite_of_front 0 front (name ++ parenthesized bases)
  rwa [← String.append_assoc] at whole

end Heading

/-- A literal ends with its closing quote. -/
theorem Text.exists_quote (s : String) : ∃ stem, quote s = stem ++ "\"" := by
  refine ⟨String.ofList ('"' :: s.toList.flatMap Quoted.escapeChar), ?_⟩
  rw [← String.toList_inj]
  simp [quote, Quoted.encode]

namespace Method

open Vocabulary

theorem wellNested_argumentLine (text : String) : WellNested (argumentLine text) :=
  .line (Line.isHeading_of_ending 0 text (by decide) (by decide))

theorem starts_argumentLine (text : String) : Starts (argumentLine text) :=
  starts_line (Text.isVisible_of_ending text (by decide))

variable (m : Method) (s : Signature)

theorem wellNested_clientDescriptor : WellNested (m.clientDescriptor s) := by
  refine .call (Text.endsWith_append _ "(") ?_ (((starts_argumentLine _).append _).append _)
  exact ((wellNested_argumentLine _).append (wellNested_argumentLine _)).append
    (wellNested_argumentLine _)

theorem wellNested_sendRequest : WellNested m.sendRequest := by
  rw [sendRequest]
  split
  · exact .line (by decide)
  · exact .lines (by decide)

theorem wellNested_clientStub : WellNested (m.clientStub s) := by
  have call : WellNested
      (Code.line ("call = " ++ clientCall ++ "(self._channel, self." ++ m.descriptor ++ ")")) :=
    .line (Line.isHeading_of_ending 0 _ (by decide) (by decide))
  have answer : WellNested (Code.line ("return " ++ m.receiveResponse ++ "(call)")) :=
    .line (Line.isHeading_of_ending 0 _ (by decide) (by decide))
  refine WellNested.blank.append (.block (Heading.opensSuite_definition _ rfl) ?_ ?_)
  · exact (call.append m.wellNested_sendRequest).append answer
  · exact ((starts_line (Text.isVisible_of_ending _ (by decide))).append _).append _

theorem wellNested_registration : WellNested (m.registration s) := by
  refine .call (by decide) (.call (Text.endsWith_append _ "(") ?_ ?_) ?_
  · exact (((((wellNested_argumentLine _).append (wellNested_argumentLine _)).append
      (wellNested_argumentLine _)).append (wellNested_argumentLine _)).append
      (wellNested_argumentLine _)).append (wellNested_argumentLine _)
  · exact (((((starts_argumentLine _).append _).append _).append _).append _).append _
  · exact starts_cons (by decide) _

theorem wellNested_adapterCode : WellNested (m.adapterCode s) := by
  have yields : WellNested (Code.block ("async for response in " ++ m.forward ++ ":")
      (Code.line "yield response")) :=
    .block (Line.opensSuite_of_front 0 (by decide) m.forward) (.line (by decide))
      (starts_line (by decide))
  have returns : WellNested (Code.line ("return await " ++ m.forward)) := by
    rw [forward, ← String.append_assoc]
    exact .line (Line.isHeading_of_ending 0 _ (by decide) (by decide))
  rw [adapterCode]
  split
  · refine WellNested.append (.block (Heading.opensSuite_definition _ rfl) ?_ ?_) .blank
    · split
      · exact yields
      · exact returns
    · split
      · exact starts_cons (Text.isVisible_of_ending _ (by decide)) _
      · rw [forward, ← String.append_assoc]
        exact starts_line (Text.isVisible_of_ending _ (by decide))
  · exact .nil

theorem wellNested_abstractHandler : WellNested (m.abstractHandler s) := by
  refine .lines ?_
  rw [List.forall_mem_cons, List.forall_mem_singleton]
  exact ⟨by decide, Heading.isHeading_of_stub _ rfl⟩

end Method

namespace ServiceNames

open Heading Vocabulary

theorem wellNested_gapAfter {α : Type} (items : List α) : WellNested (gapAfter items) := by
  rw [gapAfter]
  split
  · exact .nil
  · exact .blank

theorem wellNested_separated {codes : List Code} (each : ∀ code ∈ codes, WellNested code) :
    WellNested (separated codes) := by
  fun_induction separated codes with
  | case1 => exact .nil
  | case2 code => exact each code List.mem_cons_self
  | case3 code codes _ ih =>
    exact ((each code List.mem_cons_self).append .blank).append
      (ih fun c hc => each c (List.mem_cons_of_mem code hc))

variable (n : ServiceNames) (ms : List TypedMethod)

theorem wellNested_clientCode : WellNested (n.clientCode ms) := by
  have descriptors : WellNested (ms.flatMap fun m => m.method.clientDescriptor m.signature) :=
    .flatMap fun m _ => m.method.wellNested_clientDescriptor m.signature
  have stubs : WellNested (ms.flatMap fun m => m.method.clientStub m.signature) :=
    .flatMap fun m _ => m.method.wellNested_clientStub m.signature
  have channel : WellNested (Code.line ("_channel: " ++ clientChannel)) := .line (by decide)
  have constructor : WellNested
      (Code.block clientConstructor.text (Code.line "self._channel = channel")) :=
    .block (opensSuite_definition _ rfl) (.line (by decide)) (starts_line (by decide))
  refine .block (opensSuite_classHeading _ _) ?_ ?_
  · exact ((((descriptors.append (wellNested_gapAfter ms)).append channel).append .blank).append
      constructor).append stubs
  -- Without methods the class starts with its annotation, otherwise with a descriptor.
  · cases ms with
    | nil => exact starts_cons (by decide) _
    | cons m ms => exact starts_cons (Text.isVisible_of_ending _ (by decide)) _

theorem wellNested_serverCode : WellNested (n.serverCode ms) := by
  have registrations : WellNested (ms.flatMap fun m => m.method.registration m.signature) :=
    .flatMap fun m _ => m.method.wellNested_registration m.signature
  have adapters : WellNested (ms.flatMap fun m => m.method.adapterCode m.signature) :=
    .flatMap fun m _ => m.method.wellNested_adapterCode m.signature
  have handlers : WellNested
      (separated (ms.map fun m => m.method.abstractHandler m.signature)) := by
    apply wellNested_separated
    intro code member
    obtain ⟨m, _, rfl⟩ := List.mem_map.mp member
    exact m.method.wellNested_abstractHandler m.signature
  have property : WellNested (Code.line (decorator "property" [])) := .line (by decide)
  have getter : WellNested
      (Code.block serviceNameGetter.text (Code.line ("return " ++ Text.quote n.full))) := by
    obtain ⟨stem, literal⟩ := Text.exists_quote n.full
    rw [literal, ← String.append_assoc]
    exact .block (opensSuite_definition _ rfl)
      (.line (Line.isHeading_of_ending 0 _ (by decide) (by decide)))
      (starts_line (Text.isVisible_of_ending _ (by decide)))
  have start : WellNested (Code.line "super().__init__()") := .line (by decide)
  have constructor : WellNested (Code.block serverConstructor.text
      (Code.line "super().__init__()" ++
        ms.flatMap fun m => m.method.registration m.signature)) :=
    .block (opensSuite_definition _ rfl) (start.append registrations)
      ((starts_line (by decide)).append _)
  refine .block (opensSuite_classHeading _ _) ?_ ?_
  · exact ((((((property.append getter).append .blank).append constructor).append
      (wellNested_gapAfter ms)).append adapters).append handlers)
  · exact starts_cons (by decide) _

theorem wellNested_code : WellNested (n.code ms) :=
  ((n.wellNested_clientCode ms).append (WellNested.blank.append .blank)).append
    (n.wellNested_serverCode ms)

end ServiceNames

namespace Code

/-- The last line of the code is not blank. -/
def Ends (code : Code) : Prop := ∃ last ∈ code.getLast?, last.isVisible = true

theorem ends_line {text : String} (visible : Text.isVisible text = true) :
    Ends (Code.line text) :=
  ⟨⟨0, text⟩, rfl, visible⟩

theorem Ends.below {code : Code} (ends : code.Ends) (above : Code) : Ends (above ++ code) := by
  obtain ⟨last, isLast, visible⟩ := ends
  exact ⟨last, by rw [List.getLast?_append, Option.mem_def.mp isLast]; rfl, visible⟩

theorem Ends.flatMap {α : Type} {front : Code} (ends : front.Ends) {items : List α}
    {write : α → Code} (each : ∀ a ∈ items, Ends (write a)) :
    Ends (front ++ items.flatMap write) := by
  induction items generalizing front with
  | nil => simpa using ends
  | cons a items ih =>
    rw [List.flatMap_cons, ← List.append_assoc]
    exact ih ((each a List.mem_cons_self).below front) fun b hb =>
      each b (List.mem_cons_of_mem a hb)

theorem Ends.block {body : Code} (ends : body.Ends) (heading : String) :
    Ends (Code.block heading body) := by
  obtain ⟨last, isLast, visible⟩ := ends
  have nested : (body.map Line.nest).getLast? = some last.nest := by
    rw [List.getLast?_map, Option.mem_def.mp isLast]
    rfl
  have whole : Ends ([⟨0, heading⟩] ++ body.map Line.nest) :=
    Ends.below ⟨last.nest, nested, visible⟩ _
  exact whole

/-- One class at the margin, with a last line that is not blank. -/
def IsClass (code : Code) : Prop :=
  ∃ name bases body, code = Code.block (Heading.classHeading name bases) body ∧ body.Ends

end Code

theorem Method.ends_clientStub (m : Method) (s : Signature) : Ends (m.clientStub s) :=
  (((ends_line (Text.isVisible_of_ending _ (by decide))).below _).block _).below _

theorem Method.ends_abstractHandler (m : Method) (s : Signature) : Ends (m.abstractHandler s) :=
  (ends_line (Heading.isVisible_of_stub _ rfl)).below (Code.line _)

namespace ServiceNames

theorem ends_separated {codes : List Code} (nonempty : codes ≠ [])
    (each : ∀ code ∈ codes, Ends code) : Ends (separated codes) := by
  fun_induction separated codes with
  | case1 => exact absurd rfl nonempty
  | case2 code => exact each code List.mem_cons_self
  | case3 code codes more ih =>
    refine (ih ?_ fun c hc => each c (List.mem_cons_of_mem code hc)).below _
    rintro rfl
    exact more rfl

variable (n : ServiceNames) (ms : List TypedMethod)

theorem isClass_clientCode : IsClass (n.clientCode ms) := by
  refine ⟨_, _, _, rfl, ?_⟩
  have constructor : Ends
      (Code.block clientConstructor.text (Code.line "self._channel = channel")) :=
    (ends_line (by decide)).block _
  exact (constructor.below _).flatMap fun m _ => m.method.ends_clientStub m.signature

/-- The last line is that of a handler, or else that of the constructor. -/
theorem isClass_serverCode : IsClass (n.serverCode ms) := by
  refine ⟨_, _, _, rfl, ?_⟩
  cases ms with
  | nil =>
    simp only [gapAfter, List.isEmpty_nil, if_true, List.flatMap_nil, List.map_nil, separated,
      List.append_nil]
    exact ((ends_line (by decide)).block _).below _
  | cons m ms =>
    refine (ends_separated (by simp) ?_).below _
    intro code member
    obtain ⟨t, _, rfl⟩ := List.mem_map.mp member
    exact t.method.ends_abstractHandler t.signature

end ServiceNames

/-- The lines that code has on a page of its own. -/
def Code.alone (code : Code) : List String := (({} : Page).append code).lines

/-- Every class at the margin has exactly two empty lines above it. -/
def ClassesApart (lines : List String) : Prop :=
  ∀ above line below, lines = above ++ line :: below → Text.startsWith line "class " = true →
    ∃ before last, above = before ++ [last, "", ""] ∧ Text.isVisible last = true

/-- Lines to which another class can be added. -/
structure Extensible (lines : List String) : Prop where
  apart : ClassesApart lines
  ends : ∃ last ∈ lines.getLast?, Text.isVisible last = true

/-- A place in two lists is a place in one of them. -/
theorem append_eq_append_cons {α : Type} {first second above below : List α} {x : α}
    (h : first ++ second = above ++ x :: below) :
    (∃ rest, first = above ++ x :: rest) ∨
      ∃ front, above = first ++ front ∧ second = front ++ x :: below := by
  rcases List.append_eq_append_iff.mp h with ⟨front, hfirst, hsecond⟩ | ⟨rest, hfirst, hsecond⟩
  · exact Or.inr ⟨front, hfirst, hsecond⟩
  · cases rest with
    | nil => exact Or.inr ⟨[], by simpa using hfirst.symm, by simpa using hsecond.symm⟩
    | cons y rest =>
      cases hsecond
      exact Or.inl ⟨rest, hfirst⟩

theorem classesApart_of_none {lines : List String}
    (none : ∀ line ∈ lines, Text.startsWith line "class " = false) : ClassesApart lines := by
  rintro above line below rfl starts
  rw [none line (by simp)] at starts
  cases starts

theorem ClassesApart.append {lines more : List String} (apart : ClassesApart lines)
    (none : ∀ line ∈ more, Text.startsWith line "class " = false) :
    ClassesApart (lines ++ more) := by
  intro above line below split starts
  rcases append_eq_append_cons split with ⟨rest, inside⟩ | ⟨front, _, rfl⟩
  · exact apart above line rest inside starts
  · rw [none line (by simp)] at starts
    cases starts

/-- The one class of the new lines is the first of them that is not empty. -/
theorem Extensible.append_heading {lines : List String} (h : Extensible lines)
    {heading : String} {body : List String}
    (none : ∀ line ∈ body, Text.startsWith line "class " = false) :
    ClassesApart (lines ++ "" :: "" :: heading :: body) := by
  have empty : Text.startsWith "" "class " = false := by decide
  intro above line below split starts
  rcases append_eq_append_cons split with ⟨rest, inside⟩ | ⟨front, rfl, found⟩
  · exact h.apart above line rest inside starts
  · match front, found with
    | [], found =>
      cases found
      rw [empty] at starts
      cases starts
    | [_], found =>
      cases found
      rw [empty] at starts
      cases starts
    | [_, _], found =>
      cases found
      obtain ⟨last, isLast, visible⟩ := h.ends
      obtain ⟨before, rfl⟩ := List.getLast?_eq_some_iff.mp isLast
      exact ⟨before, last, by simp, visible⟩
    | _ :: _ :: _ :: front, found =>
      cases found
      rw [none line (by simp)] at starts
      cases starts

/-- What stands inside a block is not at the margin. -/
theorem startsWith_of_mem_render {body : Code} {line : String}
    (h : line ∈ body.render "    " 1) : Text.startsWith line "class " = false := by
  obtain ⟨l, _, rfl⟩ := List.mem_map.mp h
  rw [Line.render]
  split
  · decide
  · rw [Nat.add_comm, Text.times, String.append_assoc]
    exact Text.startsWith_of_head (by decide) (by simp)

theorem alone_of_classHeading (name : String) (bases : List String) (body : Code) :
    (Code.block (Heading.classHeading name bases) body).alone =
      Heading.classHeading name bases :: body.render "    " 1 := by
  have visible : Heading.classHeading name bases ≠ "" := by simp [Heading.classHeading]
  rw [Code.alone, Page.append, Code.render_block]
  simp [Line.render, visible, Text.times]

theorem Extensible.append_class {lines : List String} (h : Extensible lines) {code : Code}
    (isClass : IsClass code) : Extensible (lines ++ "" :: "" :: code.alone) := by
  obtain ⟨name, bases, body, rfl, last, isLast, visible⟩ := isClass
  obtain ⟨front, rfl⟩ := List.getLast?_eq_some_iff.mp isLast
  rw [alone_of_classHeading]
  refine ⟨h.append_heading fun _ member => startsWith_of_mem_render member, ?_⟩
  have shown : last.text ≠ "" := by
    intro nothing
    rw [Line.isVisible, nothing] at visible
    cases visible
  refine ⟨last.render "    " 1, by simp [Code.render, List.getLast?_cons], ?_⟩
  rw [Line.render, if_neg shown]
  exact Text.isVisible_of_ending _ visible

theorem Code.alone_append (first second : Code) :
    (first ++ second).alone = first.alone ++ second.alone :=
  Code.render_append "    " 0 first second

theorem Extensible.append_service {lines : List String} (h : Extensible lines)
    (n : ServiceNames) (ms : List TypedMethod) :
    Extensible (lines ++ "" :: "" :: (n.code ms).alone) := by
  have both := (h.append_class (n.isClass_clientCode ms)).append_class (n.isClass_serverCode ms)
  have gap : ServiceNames.moduleGap.alone = ["", ""] := rfl
  rw [ServiceNames.code, Code.alone_append, Code.alone_append, gap]
  simpa using both

theorem Extensible.append_services {lines : List String} (h : Extensible lines)
    {codes : List Code} (each : ∀ code ∈ codes, ∃ n ms, code = ServiceNames.code n ms) :
    Extensible (lines ++ codes.flatMap fun code => "" :: "" :: code.alone) := by
  induction codes generalizing lines with
  | nil => simpa using h
  | cons code codes ih =>
    obtain ⟨n, ms, rfl⟩ := each code List.mem_cons_self
    have rest := ih (h.append_service n ms) fun c hc => each c (List.mem_cons_of_mem _ hc)
    simpa using rest

theorem Import.startsWith_text (i : Import) : Text.startsWith i.text "class " = false := by
  cases i <;> exact Text.startsWith_of_head (by decide) (by simp [Import.text])

theorem Import.isVisible_text (i : Import) : Text.isVisible i.text = true := by
  have first : Text.isVisible "from " = true := by decide
  have second : Text.isVisible "import " = true := by decide
  cases i <;> simp [Import.text, first, second]

namespace ServiceModule

/-- The code of services, one after the other. -/
def stacked : List Code → Code
  | [] => []
  | first :: others => first ++ others.flatMap (ServiceNames.moduleGap ++ ·)

/-- A text made of a header and the code of all services, where blocks are nested as they should
be and classes are set apart. -/
def LaidOut (m : ServiceModule) (text : String) : Prop :=
  ∃ imports codes, m.generate.state.imports = .ok imports ∧
    List.Forall₂ (fun d code => d.code = .ok code) m.drafts codes ∧
    text = Text.ofLines (m.header imports ++ (stacked codes).alone) ∧
    (stacked codes).WellNested ∧ ClassesApart (m.header imports ++ (stacked codes).alone)

/-- A header ends with two empty lines, and a class can be put where these are. -/
theorem header_eq (m : ServiceModule) (imports : List Import) :
    ∃ top, m.header imports = top ++ ["", ""] ∧ Extensible top := by
  have fixed : ∀ line ∈ m.header [], Text.startsWith line "class " = false := by
    simp only [header, List.isEmpty_nil, if_true, List.append_nil, List.cons_append,
      List.nil_append, List.forall_mem_cons]
    exact ⟨Text.startsWith_of_head (by decide) (by simp), by decide, by decide, by decide,
      by decide, by decide, by decide, Text.startsWith_of_head (by decide) (by simp), by decide,
      by decide, by simp⟩
  refine ⟨_, rfl, classesApart_of_none ?_, ?_⟩
  · intro line member
    rcases List.mem_append.mp member with first | imported
    · exact fixed line (List.mem_append_left _ (List.mem_append_left _ first))
    · split at imported
      · cases imported
      · rcases List.mem_cons.mp imported with rfl | imported
        · decide
        · obtain ⟨i, _, rfl⟩ := List.mem_map.mp imported
          exact i.startsWith_text
  · rcases List.eq_nil_or_concat imports with rfl | ⟨front, i, rfl⟩
    · exact ⟨_, rfl, Text.isVisible_of_ending _ (by decide)⟩
    · exact ⟨i.text, by simp [List.getLast?_cons], i.isVisible_text⟩

/-- The first of several drafts is written below its gap, and then the others. -/
theorem emitDrafts_cons_eq_ok {gap : Code} {p page : Page} {d : Draft} {ds : List Draft}
    (h : (emitDrafts gap p (d :: ds)).page = .ok page) :
    ∃ code, d.code = .ok code ∧
      (emitDrafts ServiceNames.moduleGap (p.append (gap ++ code)) ds).page = .ok page := by
  rw [emitDrafts] at h
  cases first : d.emit (p.append gap) with
  | error fault =>
    rw [first] at h
    cases h
  | ok after =>
    obtain ⟨later, next⟩ := after
    rw [first] at h
    obtain ⟨_, code, written, rfl⟩ := emit_eq_ok first
    rw [Page.append_append] at h
    exact ⟨code, written, h⟩

theorem page_emitDrafts {p page : Page} {ds : List Draft}
    (h : (emitDrafts ServiceNames.moduleGap p ds).page = .ok page) :
    ∃ codes, List.Forall₂ (fun d code => d.code = .ok code) ds codes ∧
      page = p.append (codes.flatMap (ServiceNames.moduleGap ++ ·)) := by
  induction ds generalizing p with
  | nil =>
    cases h
    exact ⟨[], .nil, by simp [Page.append, Code.render]⟩
  | cons d ds ih =>
    obtain ⟨code, written, rest⟩ := emitDrafts_cons_eq_ok h
    obtain ⟨codes, others, rfl⟩ := ih rest
    exact ⟨code :: codes, .cons written others, by rw [Page.append_append, List.flatMap_cons]⟩

/-- The page of a module has the code of its services, without a gap above the first. -/
theorem page_of_drafts {page : Page} {ds : List Draft}
    (h : (emitDrafts [] {} ds).page = .ok page) :
    ∃ codes, List.Forall₂ (fun d code => d.code = .ok code) ds codes ∧
      page = ({} : Page).append (stacked codes) := by
  cases ds with
  | nil =>
    cases h
    exact ⟨[], .nil, rfl⟩
  | cons d ds =>
    obtain ⟨code, written, rest⟩ := emitDrafts_cons_eq_ok h
    obtain ⟨codes, others, rfl⟩ := page_emitDrafts rest
    exact ⟨code :: codes, .cons written others, by rw [Page.append_append, stacked]; rfl⟩

theorem exists_code {ds : List Draft} {codes : List Code}
    (h : List.Forall₂ (fun d code => d.code = .ok code) ds codes) :
    ∀ code ∈ codes, ∃ n ms, code = ServiceNames.code n ms := by
  induction h with
  | nil => simp
  | cons written _ ih =>
    rw [List.forall_mem_cons]
    obtain ⟨typed, _, same⟩ := bind_eq_ok written
    cases same
    exact ⟨⟨_, typed, rfl⟩, ih⟩

section
variable {codes : List Code} (each : ∀ code ∈ codes, ∃ n ms, code = ServiceNames.code n ms)
include each

theorem wellNested_stacked : (stacked codes).WellNested := by
  have nested : ∀ code ∈ codes, code.WellNested := by
    intro code member
    obtain ⟨n, ms, rfl⟩ := each code member
    exact n.wellNested_code ms
  cases codes with
  | nil => exact .nil
  | cons first others =>
    refine (nested first List.mem_cons_self).append (.flatMap fun code member => ?_)
    exact (WellNested.blank.append .blank).append (nested code (List.mem_cons_of_mem _ member))

/-- The two empty lines of a header are the gap above the first service. -/
theorem classesApart_stacked {top : List String} (h : Extensible top) :
    ClassesApart (top ++ ["", ""] ++ (stacked codes).alone) := by
  have gaps : ∀ others : List Code, Code.alone (others.flatMap (ServiceNames.moduleGap ++ ·)) =
      others.flatMap fun code => "" :: "" :: code.alone := fun _ => List.map_flatMap
  have all := (h.append_services each).apart
  cases codes with
  | nil =>
    rw [List.append_assoc]
    exact h.apart.append (by decide)
  | cons first others =>
    rw [stacked, Code.alone_append, gaps]
    simpa using all

end

/-- Whatever services a module has, the text that is written for it is laid out well. -/
theorem laidOut_of_generate (m : ServiceModule) (text : String)
    (written : m.generate.result = .ok text) : m.LaidOut text := by
  change (emitDrafts [] {} m.drafts).page >>= m.generate.state.moduleText = .ok text at written
  obtain ⟨page, emission, written⟩ := bind_eq_ok written
  rw [moduleText] at written
  obtain ⟨imports, accepted, written⟩ := bind_eq_ok written
  obtain ⟨body, taken, written⟩ := bind_eq_ok written
  cases written
  obtain ⟨codes, each, rfl⟩ := page_of_drafts emission
  have services := exists_code each
  obtain ⟨top, header, extensible⟩ := m.header_eq imports
  refine ⟨imports, codes, accepted, each, ?_, wellNested_stacked services, ?_⟩
  · cases taken
    rw [Text.ofLines_append]
    rfl
  · rw [header]
    exact classesApart_stacked services extensible

/-- A service without methods and one with a method of every kind of streaming. -/
def quietAndChatty : SchemaFile :=
  let rpc (name : String) (streaming : Streaming) : Rpc :=
    ⟨name, ".demo.Ping", ".demo.Ping", streaming⟩
  { name := "demo/chat.proto", package := "demo", messages := [.mk "Ping" false []]
    services :=
      [{ name := "Quiet" },
        { name := "Chatty"
          rpcs := [rpc "Say" ⟨false, false⟩, rpc "Hear" ⟨false, true⟩, rpc "Tell" ⟨true, false⟩,
            rpc "Talk" ⟨true, true⟩] }] }

theorem laidOut_of_generate_chatty :
    ∃ text, (ofFileAlone quietAndChatty).generate.result = .ok text ∧
      (ofFileAlone quietAndChatty).LaidOut text := by
  have succeeds : (ofFileAlone quietAndChatty).generate.result.toOption.isSome = true := by
    decide +kernel
  cases written : (ofFileAlone quietAndChatty).generate.result with
  | error fault =>
    rw [written] at succeeds
    cases succeeds
  | ok text => exact ⟨text, rfl, laidOut_of_generate _ text written⟩

end ServiceModule

end RpcScaffold
