import Mathlib.Data.List.TakeWhile
import RpcScaffold.Text.Blank

/-!
# Blanks around a text

Stripping a text gives its core: the one text that neither starts nor ends with a blank and has
the text around it made of blanks alone. A text without blanks at its ends is its own core.
-/
namespace RpcScaffold.Text

/-- The text neither starts nor ends with a blank. -/
structure Trimmed (s : String) : Prop where
  head : ∀ c ∈ s.toList.head?, isBlank c = false
  last : ∀ c ∈ s.toList.getLast?, isBlank c = false

theorem trimmed_iff (s : String) :
    Trimmed s ↔ (s.toList.head?.all fun c => !isBlank c) = true ∧
      (s.toList.getLast?.all fun c => !isBlank c) = true := by
  simp only [Option.all_eq_true, Bool.not_eq_true']
  exact ⟨fun trimmed => ⟨trimmed.head, trimmed.last⟩, fun h => ⟨h.1, h.2⟩⟩

instance (s : String) : Decidable (Trimmed s) := decidable_of_iff' _ (trimmed_iff s)

/-- The text is a core with blanks around it, and the core has none at its ends. -/
structure Padded (core s : String) : Prop where
  trimmed : Trimmed core
  around : ∃ front back : String, s = front ++ core ++ back ∧
    (∀ c ∈ front.toList, isBlank c = true) ∧ ∀ c ∈ back.toList, isBlank c = true

theorem trimmed_empty : Trimmed "" := ⟨by simp, by simp⟩

theorem Trimmed.padded {s : String} (trimmed : Trimmed s) : Padded s s :=
  ⟨trimmed, "", "", by simp, by simp, by simp⟩

theorem Padded.mem {core s : String} (padded : Padded core s) {c : Char} (h : c ∈ core.toList) :
    c ∈ s.toList := by
  obtain ⟨front, back, rfl, _, _⟩ := padded.around
  simp [h]

/-- A text is trimmed when it starts and ends with trimmed texts that are not empty. -/
theorem Trimmed.append {first second : String} (hfirst : Trimmed first) (hsecond : Trimmed second)
    (someFirst : first ≠ "") (someSecond : second ≠ "") (middle : String) :
    Trimmed (first ++ middle ++ second) := by
  have startsWithin : first.toList.head?.isSome = true := by simpa using someFirst
  have endsWithin : second.toList.getLast?.isSome = true := by simpa using someSecond
  constructor
  · rw [String.toList_append, String.toList_append, List.append_assoc, List.head?_append,
      Option.or_of_isSome startsWithin]
    exact hfirst.head
  · rw [String.toList_append, List.getLast?_append, Option.or_of_isSome endsWithin]
    exact hsecond.last

theorem dropWhile_of_head {p : Char → Bool} {cs : List Char} (h : ∀ c ∈ cs.head?, p c = false) :
    cs.dropWhile p = cs := by
  cases cs with
  | nil => rfl
  | cons c cs => rw [List.dropWhile_cons_of_neg (by simpa using h)]

theorem head_dropWhile {p : Char → Bool} (cs : List Char) :
    ∀ c ∈ (cs.dropWhile p).head?, p c = false := by
  intro c hc
  have stopped := List.head?_dropWhile_not p cs
  rw [hc] at stopped
  exact stopped

/-- The blanks at the front go first and then, from the other end, those at the back. -/
theorem stripChars_append {front core back : List Char} (hfront : ∀ c ∈ front, isBlank c = true)
    (hback : ∀ c ∈ back, isBlank c = true) (head : ∀ c ∈ core.head?, isBlank c = false)
    (last : ∀ c ∈ core.getLast?, isBlank c = false) :
    stripChars (front ++ core ++ back) = core := by
  rw [stripChars, List.append_assoc, List.dropWhile_append_of_pos hfront]
  cases core with
  | nil =>
    have none : back.dropWhile isBlank = [] := List.dropWhile_eq_nil_iff.mpr hback
    rw [List.nil_append, none]
    rfl
  | cons c core =>
    have kept : (c :: core ++ back).dropWhile isBlank = c :: core ++ back :=
      dropWhile_of_head (by simpa using head)
    have reversed : ∀ d ∈ back.reverse, isBlank d = true := by simpa using hback
    have ends : (c :: core).reverse.dropWhile isBlank = (c :: core).reverse :=
      dropWhile_of_head (by rw [List.head?_reverse]; exact last)
    rw [kept, List.reverse_append, List.dropWhile_append_of_pos reversed, ends,
      List.reverse_reverse]

theorem padded_strip (s : String) : Padded (strip s) s := by
  let front := s.toList.takeWhile isBlank
  let rest := s.toList.dropWhile isBlank
  let back := (rest.reverse.takeWhile isBlank).reverse
  have ends : rest = stripChars s.toList ++ back := by
    have cut := List.takeWhile_append_dropWhile (p := isBlank) (l := rest.reverse)
    have turned := congrArg List.reverse cut
    rw [List.reverse_append, List.reverse_reverse] at turned
    exact turned.symm
  refine ⟨⟨?_, ?_⟩, String.ofList front, String.ofList back, ?_, ?_, ?_⟩
  · intro c hc
    rw [strip, String.toList_ofList] at hc
    apply head_dropWhile s.toList c
    change c ∈ rest.head?
    rw [ends, List.head?_append, hc]
    rfl
  · intro c hc
    rw [strip, String.toList_ofList, stripChars, List.getLast?_reverse] at hc
    exact head_dropWhile _ c hc
  · rw [← String.toList_inj]
    simp only [strip, String.toList_append, String.toList_ofList, List.append_assoc]
    rw [← ends]
    exact List.takeWhile_append_dropWhile.symm
  · intro c hc
    rw [String.toList_ofList] at hc
    exact List.mem_takeWhile_imp hc
  · intro c hc
    rw [String.toList_ofList, List.mem_reverse] at hc
    exact List.mem_takeWhile_imp hc

theorem Padded.strip_eq {core s : String} (padded : Padded core s) : strip s = core := by
  obtain ⟨trimmed, front, back, rfl, hfront, hback⟩ := padded
  rw [← String.toList_inj, strip, String.toList_ofList, String.toList_append, String.toList_append]
  exact stripChars_append hfront hback trimmed.head trimmed.last

theorem strip_eq_iff (s core : String) : strip s = core ↔ Padded core s :=
  ⟨fun h => h ▸ padded_strip s, Padded.strip_eq⟩

end RpcScaffold.Text
