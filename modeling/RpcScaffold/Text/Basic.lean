/-!
# Text by characters

Names, paths and option strings are read and written character by character.
Every operation here is a list operation on `String.toList`, so lengths, cuts and
comparisons count code points, never bytes.
-/
namespace RpcScaffold.Text

/-- Replaces every character by a character. -/
def mapChars (f : Char → Char) (s : String) : String :=
  String.ofList (s.toList.map f)

/-- Replaces every character by a piece of text. -/
def spellChars (f : Char → List Char) (s : String) : String :=
  String.ofList (s.toList.flatMap f)

/-- Writes `b` for every `a`. -/
def swapChar (a b : Char) : Char → Char :=
  fun c => if c = a then b else c

def endsWith (s ending : String) : Bool :=
  ending.toList.isSuffixOf s.toList

/-- The text without its last `n` characters. -/
def dropRight (s : String) (n : Nat) : String :=
  String.ofList (s.toList.take (s.toList.length - n))

/-- The text before the first `mark`, or all of it when there is none. -/
def upTo (mark : Char) (s : String) : String :=
  String.ofList (s.toList.takeWhile (· ≠ mark))

/-- The text after the first `mark`, or none of it when there is none. -/
def past (mark : Char) (s : String) : String :=
  String.ofList (s.toList.dropWhile (· ≠ mark)).tail

/-- Cuts at every `sep`; there is always one piece more than there are separators. -/
def cut (sep : Char) : List Char → List (List Char)
  | [] => [[]]
  | c :: cs =>
    if c = sep then [] :: cut sep cs
    else match cut sep cs with
      | [] => [[c]]
      | piece :: pieces => (c :: piece) :: pieces

def pieces (sep : Char) (s : String) : List String :=
  (cut sep s.toList).map String.ofList

/-- Writes a text `n` times over. -/
def times (s : String) : Nat → String
  | 0 => ""
  | n + 1 => s ++ times s n

/-- Every line is closed by a line feed, the last one too. -/
def ofLines : List String → String
  | [] => ""
  | line :: lines => line ++ "\n" ++ ofLines lines

/-- The texts with a comma and a space between them; empty ones are left out. -/
def commaList (items : List String) : String :=
  String.intercalate ", " (items.filter (· ≠ ""))

/-! ## Characters of the results -/

@[simp] theorem toList_mapChars (f : Char → Char) (s : String) :
    (mapChars f s).toList = s.toList.map f := by
  simp [mapChars]

@[simp] theorem toList_spellChars (f : Char → List Char) (s : String) :
    (spellChars f s).toList = s.toList.flatMap f := by
  simp [spellChars]

@[simp] theorem toList_upTo (mark : Char) (s : String) :
    (upTo mark s).toList = s.toList.takeWhile (· ≠ mark) := by
  simp [upTo]

@[simp] theorem toList_past (mark : Char) (s : String) :
    (past mark s).toList = (s.toList.dropWhile (· ≠ mark)).tail := by
  simp [past]

theorem mapChars_append (f : Char → Char) (s t : String) :
    mapChars f (s ++ t) = mapChars f s ++ mapChars f t := by
  rw [← String.toList_inj]
  simp

theorem endsWith_iff (s ending : String) :
    endsWith s ending = true ↔ ∃ stem, s = stem ++ ending := by
  rw [endsWith, List.isSuffixOf_iff_suffix]
  constructor
  · rintro ⟨stem, h⟩
    exact ⟨String.ofList stem, String.toList_inj.mp (by simp [h])⟩
  · rintro ⟨stem, rfl⟩
    exact ⟨stem.toList, by simp⟩

@[simp] theorem dropRight_append (stem ending : String) :
    dropRight (stem ++ ending) ending.toList.length = stem := by
  rw [← String.toList_inj]
  simp [dropRight]

theorem cut_ne_nil (sep : Char) (cs : List Char) : cut sep cs ≠ [] := by
  cases cs with
  | nil => simp [cut]
  | cons c cs =>
    rw [cut]
    split
    · simp
    · split <;> simp

theorem ofLines_append (first second : List String) :
    ofLines (first ++ second) = ofLines first ++ ofLines second := by
  induction first with
  | nil => simp [ofLines]
  | cons line lines ih => simp [ofLines, ih, String.append_assoc]

end RpcScaffold.Text
