import RpcScaffold.Text.Quoted

/-!
# Literals are read back

A literal is scanned to its own closing quote and no further, whatever text it denotes and
whatever follows it. Nor can the scan end sooner: a scan that has ended does not change when
characters are added, so no proper front of a literal is a literal. Escaping may be thought of
as one pass or as two, first over the backslashes and then over the quotes.
-/
namespace RpcScaffold.Text

namespace Quoted

theorem scan_cons {c : Char} (noQuote : c ≠ '"') (noEscape : c ≠ '\\') (rest : List Char) :
    scan (c :: rest) = (scan rest).map fun (value, left) => (c :: value, left) := by
  conv => lhs; unfold scan
  split <;> simp_all

/-- One character is scanned as what it was before it was escaped. -/
theorem scan_escapeChar (c : Char) (rest : List Char) :
    scan (escapeChar c ++ rest) = (scan rest).map fun (value, left) => (c :: value, left) := by
  rw [escapeChar]
  split
  · next same =>
    subst same
    rfl
  · next noEscape =>
    split
    · next same =>
      subst same
      rfl
    · next noQuote => exact scan_cons noQuote noEscape rest

theorem scan_escaped (cs rest : List Char) :
    scan (cs.flatMap escapeChar ++ '"' :: rest) = some (cs, rest) := by
  induction cs with
  | nil => rfl
  | cons c cs ih =>
    rw [List.flatMap_cons, List.append_assoc, scan_escapeChar, ih]
    rfl

theorem read_encode (cs rest : List Char) : read (encode cs ++ rest) = some (cs, rest) := by
  rw [encode, List.cons_append, List.append_assoc]
  exact scan_escaped cs rest

/-- Characters after the end of a literal do not change how it is scanned. -/
theorem scan_append {cs value left : List Char} (h : scan cs = some (value, left))
    (rest : List Char) : scan (cs ++ rest) = some (value, left ++ rest) := by
  fun_induction scan cs generalizing value with
  | case1 => cases h
  | case2 =>
    cases h
    rfl
  | case3 c cs ih =>
    obtain ⟨⟨inner, _⟩, ended, same⟩ := Option.map_eq_some_iff.mp h
    cases same
    rw [List.cons_append, List.cons_append, scan, ih ended]
    rfl
  | case4 => cases h
  | case5 c cs noQuote inside atEnd ih =>
    obtain ⟨⟨inner, _⟩, ended, same⟩ := Option.map_eq_some_iff.mp h
    cases same
    have noEscape : c ≠ '\\' := by
      rintro rfl
      cases cs with
      | nil => exact atEnd rfl rfl
      | cons d cs => exact inside d cs rfl rfl
    rw [List.cons_append, scan_cons noQuote noEscape, ih ended]
    rfl

/-- Reading stops at the last character of a literal and at no character before it. -/
theorem read_front_of_encode {cs front back : List Char} (split : encode cs = front ++ back)
    (more : back ≠ []) : read front = none := by
  cases front with
  | nil => rfl
  | cons c front =>
    rw [encode, List.cons_append, List.cons.injEq] at split
    obtain ⟨rfl, body⟩ := split
    cases ended : scan front with
    | none => exact ended
    | some result =>
      obtain ⟨value, left⟩ := result
      have whole := scan_append ended back
      rw [← body, scan_escaped, Option.some.injEq, Prod.mk.injEq] at whole
      exact False.elim (more (List.append_eq_nil_iff.mp whole.2.symm).2)

end Quoted

/-- The text that a literal denotes, when nothing follows the literal. -/
def unquote? (s : String) : Option String :=
  match Quoted.read s.toList with
  | some (value, []) => some (String.ofList value)
  | _ => none

theorem unquote?_quote (s : String) : unquote? (quote s) = some s := by
  have whole := Quoted.read_encode s.toList []
  rw [List.append_nil] at whole
  simp only [unquote?, quote, String.toList_ofList, whole, String.ofList_toList]

/-- One kind of character is preceded by a backslash. -/
def guarded (mark c : Char) : List Char := if c = mark then ['\\', mark] else [c]

theorem escapeChar_eq (c : Char) :
    Quoted.escapeChar c = (guarded '\\' c).flatMap (guarded '"') := by
  rw [Quoted.escapeChar]
  split
  · next same =>
    subst same
    rfl
  · next noEscape => simp [guarded, noEscape]

/-- The backslashes are escaped first, so that those which escape a quote are not. -/
theorem quote_eq (s : String) :
    quote s = "\"" ++ spellChars (guarded '"') (spellChars (guarded '\\') s) ++ "\"" := by
  have escaped : s.toList.flatMap Quoted.escapeChar =
      (s.toList.flatMap (guarded '\\')).flatMap (guarded '"') := by
    rw [List.flatMap_assoc]
    exact congrArg (s.toList.flatMap ·) (funext escapeChar_eq)
  rw [← String.toList_inj, quote, String.toList_ofList, Quoted.encode, escaped]
  simp

/-- Whatever a text contains, its literal is scanned to its last character and no less, denotes
the text, and is not changed by what follows it; and texts have different literals. The literal
is made by escaping the backslashes and after them the quotes. -/
theorem literal_scanned (s : String) :
    (∀ rest, Quoted.read ((quote s).toList ++ rest) = some (s.toList, rest)) ∧
      Quoted.read (quote s).toList = some (s.toList, []) ∧
      (∀ front back, (quote s).toList = front ++ back → back ≠ [] → Quoted.read front = none) ∧
      (∀ t, quote s = quote t → s = t) ∧
      quote s = "\"" ++ spellChars (guarded '"') (spellChars (guarded '\\') s) ++ "\"" := by
  have chars : ∀ t : String, (quote t).toList = Quoted.encode t.toList := fun t => by simp [quote]
  have followed : ∀ rest, Quoted.read ((quote s).toList ++ rest) = some (s.toList, rest) := by
    intro rest
    rw [chars]
    exact Quoted.read_encode s.toList rest
  refine ⟨followed, ?_, ?_, ?_, quote_eq s⟩
  · simpa using followed []
  · intro front back split more
    exact Quoted.read_front_of_encode ((chars s).symm.trans split) more
  · intro t same
    have read := unquote?_quote s
    rw [same, unquote?_quote] at read
    exact (Option.some.inj read).symm

/-- A backslash before a quote, and one at the end. -/
theorem literal_scanned_backslashes :
    quote "a\\\"\\" = "\"a\\\\\\\"\\\\\"" ∧
      Quoted.read "\"a\\\\\\\"\\\\\"; b".toList =
        some ("a\\\"\\".toList, "; b".toList) ∧
      Quoted.read "\"a\\\\\\\"\\\\".toList = none := by
  have literal : quote "a\\\"\\" = "\"a\\\\\\\"\\\\\"" := by decide +kernel
  obtain ⟨followed, _, fronts, _⟩ := literal_scanned "a\\\"\\"
  rw [literal] at followed fronts
  exact ⟨literal, followed "; b".toList, fronts _ ['"'] rfl (by decide)⟩

end RpcScaffold.Text
