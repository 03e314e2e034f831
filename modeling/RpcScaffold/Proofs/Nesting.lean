import RpcScaffold.Draft.Emission
import RpcScaffold.Text.Blank

/-!
# Blocks of code

What makes lines with depths a program: a heading is followed at once by the first line of its
block, one level deeper; nothing else is followed by deeper code; and a parenthesis that is
opened at the end of a line is closed by a line of its own, where the heading stands. Headings
are told by their texts alone. Code that starts at the margin and keeps these rules can be put
below other such code, with or without empty lines between them, and is again a body for a
heading; from this the code of every fragment, class and service keeps them, whatever names and
types are written in it.
-/
namespace RpcScaffold

namespace Text

/-- Not all of the text is blank. -/
def isVisible (s : String) : Bool := s.toList.any fun c => !isBlank c

@[simp] theorem isVisible_append (first second : String) :
    isVisible (first ++ second) = (isVisible first || isVisible second) := by
  simp [isVisible]

theorem isVisible_of_ending (stem : String) {ending : String} (h : isVisible ending = true) :
    isVisible (stem ++ ending) = true := by
  rw [isVisible_append, h, Bool.or_true]

def startsWith (s front : String) : Bool :=
  front.toList.isPrefixOf s.toList

theorem startsWith_append {s front : String} (starts : startsWith s front = true)
    (rest : String) : startsWith (s ++ rest) front = true := by
  rw [startsWith, List.isPrefixOf_iff_prefix] at starts ⊢
  rw [String.toList_append]
  exact starts.trans (List.prefix_append _ _)

/-- A text with another first character starts otherwise. -/
theorem startsWith_of_head {s front : String} (nonempty : front ≠ "")
    (apart : front.toList.head? ≠ s.toList.head?) : startsWith s front = false := by
  rw [startsWith, Bool.eq_false_iff]
  intro starts
  obtain ⟨rest, split⟩ := List.isPrefixOf_iff_prefix.mp starts
  apply apart
  cases chars : front.toList with
  | nil => exact absurd (String.toList_inj.mp chars) nonempty
  | cons c cs => simp [← split, chars]

theorem endsWith_append (stem ending : String) : endsWith (stem ++ ending) ending = true :=
  (endsWith_iff _ _).mpr ⟨stem, rfl⟩

theorem getLast?_append (stem : String) {ending : String} (nonempty : ending ≠ "") :
    (stem ++ ending).toList.getLast? = ending.toList.getLast? := by
  have last : ending.toList.getLast?.isSome = true := by simpa using nonempty
  rw [String.toList_append, List.getLast?_append, Option.or_of_isSome last]

theorem isVisible_of_endsWith {s ending : String} (ends : endsWith s ending = true)
    (h : isVisible ending = true) : isVisible s = true := by
  obtain ⟨stem, rfl⟩ := (endsWith_iff s ending).mp ends
  exact isVisible_of_ending stem h

/-- A text with another last character ends otherwise. -/
theorem endsWith_of_last {s ending : String} (nonempty : ending ≠ "")
    (apart : ending.toList.getLast? ≠ s.toList.getLast?) : endsWith s ending = false := by
  rw [Bool.eq_false_iff]
  intro ends
  obtain ⟨stem, rfl⟩ := (endsWith_iff s ending).mp ends
  exact apart (getLast?_append stem nonempty).symm

end Text

namespace Line

def isVisible (l : Line) : Bool := Text.isVisible l.text

/-- The words that open a block with a colon at the end of the line. -/
def suiteWords : List String := ["class ", "def ", "async def ", "async for "]

def opensSuite (l : Line) : Bool :=
  suiteWords.any (Text.startsWith l.text) && Text.endsWith l.text ":"

/-- The line ends with the parenthesis that opens the arguments of a call. -/
def opensCall (l : Line) : Bool := Text.endsWith l.text "("

def isHeading (l : Line) : Bool := l.opensSuite || l.opensCall

/-- A line keeps the rules of blocks with respect to the lines below it. -/
structure Fits (l : Line) (below : Code) : Prop where
  /-- A heading has its block right below it. -/
  heads : l.isHeading = true →
    ∃ next ∈ below.head?, next.isVisible = true ∧ next.depth = l.depth + 1
  /-- Of two lines with at most blank ones between them, the second stands deeper only when it
  is the first of a block. -/
  rises : l.isVisible = true → ∀ next ∈ below.find? isVisible, l.depth < next.depth →
    l.isHeading = true ∧ below.head? = some next ∧ next.depth = l.depth + 1
  /-- A parenthesis is closed where it was opened, and all that stands between is deeper. -/
  closes : l.opensCall = true →
    ∃ inside after, below = inside ++ ⟨l.depth, ")"⟩ :: after ∧ ∀ i ∈ inside, l.depth < i.depth

end Line

namespace Code

/-- A rule for a line and the lines below it holds all the way down. -/
def Everywhere (rule : Line → Code → Prop) : Code → Prop
  | [] => True
  | l :: below => rule l below ∧ Everywhere rule below

/-- Every line keeps the rules of blocks, and the code starts at the margin. -/
structure WellNested (code : Code) : Prop where
  fits : code.Everywhere Line.Fits
  base : ∀ first ∈ code.find? Line.isVisible, first.depth = 0

/-- The code starts with a line that is not blank. -/
def Starts (code : Code) : Prop := ∃ first ∈ code.head?, first.isVisible = true

end Code

namespace Line

@[simp] theorem depth_nest (l : Line) : l.nest.depth = l.depth + 1 := rfl

/-- A line is no heading when its last character is neither a colon nor a parenthesis that
opens. -/
theorem isHeading_of_ending (depth : Nat) (stem : String) {ending : String}
    (nonempty : ending ≠ "") (plain : ending.toList.getLast? ∉ [some ':', some '(']) :
    (⟨depth, stem ++ ending⟩ : Line).isHeading = false := by
  obtain ⟨noColon, noParenthesis⟩ : ending.toList.getLast? ≠ some ':' ∧
      ending.toList.getLast? ≠ some '(' := by simpa using plain
  have ends := Text.getLast?_append stem nonempty
  have suite : Text.endsWith (stem ++ ending) ":" = false :=
    Text.endsWith_of_last (by decide) (by rw [ends]; exact noColon.symm)
  have call : Text.endsWith (stem ++ ending) "(" = false :=
    Text.endsWith_of_last (by decide) (by rw [ends]; exact noParenthesis.symm)
  simp [isHeading, opensSuite, opensCall, suite, call]

theorem opensSuite_of_front (depth : Nat) {front : String}
    (starts : suiteWords.any (Text.startsWith front) = true) (middle : String) :
    (⟨depth, front ++ middle ++ ":"⟩ : Line).opensSuite = true := by
  obtain ⟨word, known, starts⟩ := List.any_eq_true.mp starts
  rw [opensSuite, Bool.and_eq_true, List.any_eq_true]
  refine ⟨⟨word, known, ?_⟩, Text.endsWith_append _ _⟩
  exact Text.startsWith_append (Text.startsWith_append starts middle) ":"

theorem not_opensCall_of_opensSuite {l : Line} (h : l.opensSuite = true) : l.opensCall = false := by
  rw [opensSuite, Bool.and_eq_true] at h
  obtain ⟨stem, text⟩ := (Text.endsWith_iff l.text ":").mp h.2
  rw [opensCall, text]
  exact Text.endsWith_of_last (by decide) (by simp)

theorem isVisible_of_isHeading {l : Line} (h : l.isHeading = true) : l.isVisible = true := by
  rw [isHeading, opensSuite, opensCall, Bool.or_eq_true, Bool.and_eq_true] at h
  rcases h with ⟨_, colon⟩ | parenthesis
  · exact Text.isVisible_of_endsWith colon (by decide)
  · exact Text.isVisible_of_endsWith parenthesis (by decide)

/-- Code that starts at the margin can be put below without a line noticing. -/
theorem Fits.append {l : Line} {below more : Code} (fits : l.Fits below)
    (base : ∀ first ∈ more.find? isVisible, first.depth = 0) : l.Fits (below ++ more) where
  heads heading := by
    obtain ⟨next, head, rest⟩ := fits.heads heading
    exact ⟨next, by rw [List.head?_append, Option.mem_def.mp head]; rfl, rest⟩
  rises visible next found deeper := by
    rw [List.find?_append] at found
    cases inside : below.find? isVisible with
    | some first =>
      rw [inside] at found
      cases found
      obtain ⟨heading, head, step⟩ := fits.rises visible next inside deeper
      exact ⟨heading, by rw [List.head?_append, head]; rfl, step⟩
    | none =>
      rw [inside] at found
      have margin := base next found
      omega
  closes opened := by
    obtain ⟨inside, after, split, deeper⟩ := fits.closes opened
    exact ⟨inside, after ++ more, by rw [split]; simp, deeper⟩

theorem Fits.nest {l : Line} {below : Code} (fits : l.Fits below) :
    l.nest.Fits (below.map Line.nest) where
  heads heading := by
    obtain ⟨next, head, visible, step⟩ := fits.heads heading
    refine ⟨next.nest, by rw [List.head?_map, Option.mem_def.mp head]; rfl, visible, ?_⟩
    rw [depth_nest, depth_nest, step]
  rises visible next found deeper := by
    rw [List.find?_map, Option.mem_def, Option.map_eq_some_iff] at found
    obtain ⟨first, inside, rfl⟩ := found
    rw [depth_nest, depth_nest] at deeper
    obtain ⟨heading, head, step⟩ := fits.rises visible first inside (by omega)
    exact ⟨heading, by rw [List.head?_map, head]; rfl, by rw [depth_nest, depth_nest, step]⟩
  closes opened := by
    obtain ⟨inside, after, split, deeper⟩ := fits.closes opened
    refine ⟨inside.map Line.nest, after.map Line.nest, by rw [split]; simp [Line.nest], ?_⟩
    intro i hi
    obtain ⟨j, hj, rfl⟩ := List.mem_map.mp hi
    exact Nat.succ_lt_succ (deeper j hj)

/-- A heading fits on top of its block. -/
theorem fits_of_starts {heading : String} {body : Code} (starts : body.Starts)
    (base : ∀ first ∈ body.find? isVisible, first.depth = 0) (after : Code)
    (head : (⟨0, heading⟩ : Line).isHeading = true)
    (closes : (⟨0, heading⟩ : Line).opensCall = true → ∃ rest, after = ⟨0, ")"⟩ :: rest) :
    (⟨0, heading⟩ : Line).Fits (body.map Line.nest ++ after) := by
  obtain ⟨first, isFirst, visible⟩ := starts
  obtain ⟨rest, rfl⟩ := List.head?_eq_some_iff.mp isFirst
  have margin : first.depth = 0 := base first (by simp [visible])
  have below : (first :: rest).map Line.nest ++ after =
      first.nest :: (rest.map Line.nest ++ after) := rfl
  have deeper : first.nest.depth = 0 + 1 := by rw [depth_nest, margin]
  constructor
  · intro _
    exact ⟨first.nest, by rw [below]; rfl, visible, deeper⟩
  · intro _ next found _
    have same : next = first.nest := by
      rw [below, List.find?_cons_of_pos (by exact visible)] at found
      exact (Option.some.inj found).symm
    subst same
    exact ⟨head, by rw [below]; rfl, deeper⟩
  · intro opened
    obtain ⟨others, rfl⟩ := closes opened
    refine ⟨(first :: rest).map Line.nest, others, rfl, ?_⟩
    intro i hi
    obtain ⟨j, _, rfl⟩ := List.mem_map.mp hi
    exact Nat.succ_pos j.depth

end Line

namespace Code

theorem Everywhere.append {rule : Line → Code → Prop} {first second : Code}
    (hfirst : first.Everywhere rule) (hsecond : second.Everywhere rule)
    (kept : ∀ l below, rule l below → rule l (below ++ second)) :
    (first ++ second).Everywhere rule := by
  induction first with
  | nil => exact hsecond
  | cons l below ih => exact ⟨kept l below hfirst.1, ih hfirst.2⟩

theorem Everywhere.nest {code : Code} (h : code.Everywhere Line.Fits) :
    Everywhere Line.Fits (code.map Line.nest) := by
  induction code with
  | nil => trivial
  | cons l below ih => exact ⟨h.1.nest, ih h.2⟩

theorem Starts.append {code : Code} (starts : code.Starts) (more : Code) :
    Starts (code ++ more) := by
  obtain ⟨first, head, visible⟩ := starts
  exact ⟨first, by rw [List.head?_append, Option.mem_def.mp head]; rfl, visible⟩

theorem starts_cons {depth : Nat} {text : String} (visible : Text.isVisible text = true)
    (below : Code) : Starts (⟨depth, text⟩ :: below) :=
  ⟨⟨depth, text⟩, rfl, visible⟩

theorem starts_line {text : String} (visible : Text.isVisible text = true) :
    Starts (Code.line text) :=
  starts_cons visible []

namespace WellNested

theorem nil : WellNested [] := ⟨trivial, by simp⟩

theorem append {first second : Code} (hfirst : WellNested first) (hsecond : WellNested second) :
    WellNested (first ++ second) where
  fits := hfirst.fits.append hsecond.fits fun _ _ fits => fits.append hsecond.base
  base := by
    intro l found
    rw [List.find?_append] at found
    cases inside : first.find? Line.isVisible with
    | some top =>
      rw [inside] at found
      cases found
      exact hfirst.base l inside
    | none =>
      rw [inside] at found
      exact hsecond.base l found

theorem flatMap {α : Type} {items : List α} {write : α → Code}
    (each : ∀ a ∈ items, WellNested (write a)) : WellNested (items.flatMap write) := by
  induction items with
  | nil => exact nil
  | cons a items ih =>
    rw [List.flatMap_cons]
    exact (each a List.mem_cons_self).append (ih fun b hb => each b (List.mem_cons_of_mem a hb))

theorem line {text : String} (plain : (⟨0, text⟩ : Line).isHeading = false) :
    WellNested (Code.line text) := by
  have noCall : (⟨0, text⟩ : Line).opensCall = false := (Bool.or_eq_false_iff.mp plain).2
  refine ⟨⟨⟨?_, ?_, ?_⟩, trivial⟩, ?_⟩
  · simp [plain]
  · simp
  · simp [noCall]
  · intro first found
    have same := List.mem_singleton.mp (List.mem_of_find?_eq_some found)
    rw [same]

theorem lines {texts : List String}
    (plain : ∀ text ∈ texts, (⟨0, text⟩ : Line).isHeading = false) :
    WellNested (Code.lines texts) := by
  induction texts with
  | nil => exact nil
  | cons text texts ih =>
    exact (line (plain text List.mem_cons_self)).append
      (ih fun t ht => plain t (List.mem_cons_of_mem text ht))

theorem blank : WellNested Code.blank := line (by decide)

/-- A heading with its block and what comes after it. -/
theorem headed {heading : String} (head : (⟨0, heading⟩ : Line).isHeading = true)
    {body after : Code} (hbody : WellNested body) (starts : body.Starts) (hafter : WellNested after)
    (closes : (⟨0, heading⟩ : Line).opensCall = true → ∃ rest, after = ⟨0, ")"⟩ :: rest) :
    WellNested (Code.block heading body ++ after) where
  fits := by
    refine ⟨Line.fits_of_starts starts hbody.base after head closes, ?_⟩
    exact hbody.fits.nest.append hafter.fits fun _ _ fits => fits.append hafter.base
  base := by
    intro first found
    rw [Code.block, List.cons_append,
      List.find?_cons_of_pos (Line.isVisible_of_isHeading head)] at found
    cases found
    rfl

theorem block {heading : String} (suite : (⟨0, heading⟩ : Line).opensSuite = true) {body : Code}
    (hbody : WellNested body) (starts : body.Starts) : WellNested (Code.block heading body) := by
  have head : (⟨0, heading⟩ : Line).isHeading = true := by simp [Line.isHeading, suite]
  have noCall := Line.not_opensCall_of_opensSuite suite
  have alone := headed head hbody starts nil (by simp [noCall])
  rwa [List.append_nil] at alone

/-- A call whose arguments stand on lines of their own. -/
theorem call {heading : String} (opens : (⟨0, heading⟩ : Line).opensCall = true) {body : Code}
    (hbody : WellNested body) (starts : body.Starts) :
    WellNested (Code.block heading body ++ Code.line ")") := by
  have head : (⟨0, heading⟩ : Line).isHeading = true := by simp [Line.isHeading, opens]
  exact headed head hbody starts (line (by decide)) fun _ => ⟨[], rfl⟩

end WellNested

end Code

end RpcScaffold
