import RpcScaffold.Layout.Code

/-!
# Reading lines back

A reader takes lines from the front of a list and says what they hold, or refuses them. The
other side of the layout of code: a reader knows at which depth the next line stands and what
is fixed about it, and gives what stands in between. Which text a depth puts in front of a
line does not matter here; it may be empty, and it may look like code. `Reads` says that a
reader takes exactly some code, whatever the lines after it, and the readers of a page are put
together from those of its parts.
-/
namespace RpcScaffold

namespace Text

/-- What follows a text at the start of another. -/
def after? (front s : String) : Option String :=
  if front.toList.isPrefixOf s.toList then
    some (String.ofList (s.toList.drop front.toList.length))
  else none

/-- What stands between a text at the start and one at the end. -/
def between? (front back s : String) : Option String := do
  let rest ← after? front s
  if endsWith rest back then some (dropRight rest back.toList.length) else none

theorem after?_eq_some_iff (front s rest : String) :
    after? front s = some rest ↔ s = front ++ rest := by
  rw [after?]
  constructor
  · intro h
    split at h
    · next starts =>
      obtain ⟨tail, split⟩ := List.isPrefixOf_iff_prefix.mp starts
      cases h
      rw [← String.toList_inj]
      simp [← split]
    · cases h
  · rintro rfl
    have starts : front.toList.isPrefixOf (front ++ rest).toList = true := by
      simp [List.isPrefixOf_iff_prefix]
    rw [if_pos starts]
    simp

theorem between?_eq_some_iff (front back s middle : String) :
    between? front back s = some middle ↔ s = front ++ middle ++ back := by
  rw [between?, Option.bind_eq_bind, Option.bind_eq_some_iff]
  constructor
  · rintro ⟨rest, starts, h⟩
    obtain rfl := (after?_eq_some_iff front s rest).mp starts
    split at h
    · next ends =>
      obtain ⟨stem, rfl⟩ := (endsWith_iff rest back).mp ends
      rw [dropRight_append] at h
      cases h
      exact (String.append_assoc ..).symm
    · cases h
  · rintro rfl
    refine ⟨middle ++ back, ?_, ?_⟩
    · rw [after?_eq_some_iff, String.append_assoc]
    · rw [if_pos ((endsWith_iff _ back).mpr ⟨middle, rfl⟩), dropRight_append]

theorem between?_of_head {front back s : String} (nonempty : front ≠ "")
    (apart : front.toList.head? ≠ s.toList.head?) : between? front back s = none := by
  rw [Option.eq_none_iff_forall_ne_some]
  intro middle found
  obtain rfl := (between?_eq_some_iff front back s middle).mp found
  apply apart
  cases chars : front.toList with
  | nil => exact absurd (String.toList_inj.mp chars) nonempty
  | cons c cs => simp [chars]

/-- The same text in front of both changes nothing. -/
theorem between?_append (margin front back s : String) :
    between? (margin ++ front) back (margin ++ s) = between? front back s := by
  ext middle
  rw [between?_eq_some_iff, between?_eq_some_iff, String.append_assoc, String.append_assoc,
    String.append_right_inj, String.append_assoc]

end Text

/-- Takes lines from the front of a list. -/
abbrev Reader (α : Type) := StateT (List String) Option α

namespace Reader

variable {α β : Type}

/-- Takes one line that can be recognised. -/
def line (recognise : String → Option α) : Reader α := fun lines =>
  match lines with
  | [] => none
  | first :: rest => (recognise first).map fun value => (value, rest)

def blank : Reader Unit := line fun first => if first = "" then some () else none

/-- Takes a line whose text is known. -/
def exactly (margin : Nat → String) (depth : Nat) (text : String) : Reader Unit :=
  line fun first => if first = margin depth ++ text then some () else none

/-- Takes a line whose ends are known, and gives what stands between them. -/
def framed (margin : Nat → String) (depth : Nat) (front back : String) : Reader String :=
  line (Text.between? (margin depth ++ front) back)

/-- Takes as many items as there are. -/
def many (item : Reader α) : Reader (List α) := fun lines =>
  match item lines with
  | none => some ([], lines)
  | some (value, rest) =>
    if rest.length < lines.length then
      (many item rest).map fun (values, last) => (value :: values, last)
    else some ([], lines)
termination_by lines => lines.length

/-- The value of lines that are taken to the last. -/
def all? (r : Reader α) (lines : List String) : Option α :=
  match r lines with
  | some (value, []) => some value
  | _ => none

def Refuses (r : Reader α) (lines : List String) : Prop := r lines = none

theorem Refuses.bind {r : Reader α} {lines : List String} (h : Refuses r lines)
    (f : α → Reader β) : Refuses (r >>= f) lines := by
  change (r lines).bind (fun found => f found.1 found.2) = none
  rw [h]
  rfl

/-- The first line is taken and the next one is not what the reader goes on with. -/
theorem Refuses.cons {r : Reader α} {f : α → Reader β} {first : String} {rest : List String}
    {value : α} (taken : r (first :: rest) = some (value, rest)) (h : Refuses (f value) rest) :
    Refuses (r >>= f) (first :: rest) := by
  change (r (first :: rest)).bind (fun found => f found.1 found.2) = none
  rw [taken]
  exact h

theorem refuses_nil (recognise : String → Option α) : Refuses (line recognise) [] := rfl

theorem refuses_line {recognise : String → Option α} {first : String}
    (h : recognise first = none) (rest : List String) :
    Refuses (line recognise) (first :: rest) := by
  simp only [Refuses, line, h, Option.map_none]

/-- A line as it stands on a page, where every depth has a text of its own in front. -/
def onPage (margin : Nat → String) (l : Line) : String :=
  if l.text = "" then "" else margin l.depth ++ l.text

/-- The reader takes some code off the lines and leaves the others. -/
def Reads (margin : Nat → String) (r : Reader α) (code : Code) (value : α)
    (rest : List String) : Prop :=
  r (code.map (onPage margin) ++ rest) = some (value, rest)

section
variable {margin : Nat → String}

theorem Reads.pure (value : α) (rest : List String) : Reads margin (pure value) [] value rest :=
  rfl

theorem Reads.bind {r : Reader α} {f : α → Reader β} {first second : Code} {a : α} {b : β}
    {rest : List String} (head : Reads margin r first a (second.map (onPage margin) ++ rest))
    (tail : Reads margin (f a) second b rest) :
    Reads margin (r >>= f) (first ++ second) b rest := by
  change (r _).bind (fun found => f found.1 found.2) = _
  rw [List.map_append, List.append_assoc, head]
  exact tail

theorem Reads.map {r : Reader α} {code : Code} {a : α} {rest : List String}
    (h : Reads margin r code a rest) (f : α → β) :
    Reads margin (do return f (← r)) code (f a) rest := by
  change (r _).bind (fun found => some (f found.1, found.2)) = _
  rw [h]
  rfl

/-- A reader of one line, and then one of those below it. -/
theorem Reads.cons {r : Reader α} {f : α → Reader β} {l : Line} {code : Code} {a : α} {b : β}
    {rest : List String} (head : ∀ lines, Reads margin r [l] a lines)
    (tail : Reads margin (f a) code b rest) : Reads margin (r >>= f) (l :: code) b rest := by
  rw [← List.singleton_append]
  exact Reads.bind (head _) tail

theorem onPage_blank (depth : Nat) : onPage margin ⟨depth, ""⟩ = "" := if_pos rfl

theorem onPage_of_ne (depth : Nat) {text : String} (visible : text ≠ "") :
    onPage margin ⟨depth, text⟩ = margin depth ++ text := if_neg visible

theorem reads_line {recognise : String → Option α} {l : Line} {value : α}
    (h : recognise (onPage margin l) = some value) (rest : List String) :
    Reads margin (line recognise) [l] value rest := by
  simp only [Reads, line, List.map_cons, List.map_nil, List.singleton_append, h, Option.map_some]

theorem reads_blank (depth : Nat) (rest : List String) :
    Reads margin blank [⟨depth, ""⟩] () rest := by
  apply reads_line
  rw [onPage_blank, if_pos rfl]

theorem reads_exactly (depth : Nat) {text : String} (visible : text ≠ "") (rest : List String) :
    Reads margin (exactly margin depth text) [⟨depth, text⟩] () rest := by
  apply reads_line
  rw [onPage_of_ne depth visible, if_pos rfl]

theorem reads_framed (depth : Nat) (middle : String) {front back text : String}
    (layout : text = front ++ middle ++ back) (visible : front ++ back ≠ "")
    (rest : List String) :
    Reads margin (framed margin depth front back) [⟨depth, text⟩] middle rest := by
  have nonempty : text ≠ "" := by
    rintro rfl
    have ends := layout.symm
    simp only [String.append_eq_empty_iff] at ends
    exact visible (by rw [ends.1.1, ends.2]; rfl)
  apply reads_line
  rw [onPage_of_ne depth nonempty, Text.between?_append, Text.between?_eq_some_iff]
  exact layout

theorem refuses_exactly (depth : Nat) {text other : String} (visible : other ≠ "")
    (apart : other ≠ text) (rest : List String) :
    Refuses (exactly margin depth text) (onPage margin ⟨depth, other⟩ :: rest) := by
  apply refuses_line
  rw [onPage_of_ne depth visible, if_neg]
  intro same
  exact apart ((String.append_right_inj _).mp same)

theorem refuses_framed (depth : Nat) {front back other : String} (visible : other ≠ "")
    (h : Text.between? front back other = none) (rest : List String) :
    Refuses (framed margin depth front back) (onPage margin ⟨depth, other⟩ :: rest) := by
  apply refuses_line
  rw [onPage_of_ne depth visible, Text.between?_append, h]

theorem refuses_exactly_blank (depth : Nat) {text : String} (visible : text ≠ "")
    (rest : List String) : Refuses (exactly margin depth text) ("" :: rest) := by
  apply refuses_line
  rw [if_neg]
  intro same
  exact visible (String.append_eq_empty_iff.mp same.symm).2

theorem refuses_framed_blank (depth : Nat) {front back : String} (visible : front ++ back ≠ "")
    (rest : List String) : Refuses (framed margin depth front back) ("" :: rest) := by
  apply refuses_line
  rw [Option.eq_none_iff_forall_ne_some]
  intro middle found
  have ends := ((Text.between?_eq_some_iff _ back "" middle).mp found).symm
  simp only [String.append_eq_empty_iff] at ends
  exact visible (by rw [ends.1.1.2, ends.2]; rfl)

theorem Reads.left {first : Reader α} {code : Code} {value : α} {rest : List String}
    (h : Reads margin first code value rest) (second : Reader α) :
    Reads margin (first <|> second) code value rest := by
  change (first _ <|> second _) = _
  rw [h]
  rfl

theorem Reads.right {first second : Reader α} {code : Code} {value : α} {rest : List String}
    (refused : Refuses first (code.map (onPage margin) ++ rest))
    (h : Reads margin second code value rest) :
    Reads margin (first <|> second) code value rest := by
  change (first _ <|> second _) = _
  rw [refused, h]
  rfl

theorem many_of_refuses {item : Reader α} {lines : List String} (h : Refuses item lines) :
    many item lines = some ([], lines) := by
  rw [many, h]

/-- Items are read to the last when what follows them is no item. -/
theorem Reads.many {item : Reader α} {write : β → Code} {value : β → α} {items : List β}
    {rest : List String}
    (each : ∀ b ∈ items, write b ≠ [] ∧ ∀ lines, Reads margin item (write b) (value b) lines)
    (stop : Refuses item rest) :
    Reads margin (many item) (items.flatMap write) (items.map value) rest := by
  induction items with
  | nil => exact many_of_refuses stop
  | cons b items ih =>
    obtain ⟨nonempty, first⟩ := each b List.mem_cons_self
    have others := ih fun c hc => each c (List.mem_cons_of_mem b hc)
    have shorter : 0 < (write b).length := List.length_pos_iff.mpr nonempty
    rw [Reads, List.flatMap_cons, List.map_append, List.append_assoc, Reader.many, first]
    rw [Reads] at others
    simp only [others, List.length_append, List.length_map]
    rw [if_pos (by omega)]
    rfl

theorem all?_of_reads {r : Reader α} {code : Code} {value : α} (h : Reads margin r code value []) :
    all? r (code.map (onPage margin)) = some value := by
  rw [Reads, List.append_nil] at h
  simp only [all?, h]

end

end Reader

/-- Rendered code stands on a page whose margins are repeated indents. -/
theorem Code.render_eq (indent : String) (base : Nat) (code : Code) :
    code.render indent base =
      code.map (Reader.onPage fun depth => Text.times indent (base + depth)) := rfl

end RpcScaffold
