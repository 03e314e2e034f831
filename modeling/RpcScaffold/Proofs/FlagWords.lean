import RpcScaffold.Proofs.HandlerNames
import RpcScaffold.Proofs.OptionGrammar

/-!
# The spellings of a flag

A value is lowered to a word for a flag exactly when it is that word in some case of the letters
of ASCII. Of the characters beyond ASCII only the Kelvin sign is lowered to a character of ASCII
alone, and no word has a k; the capital I with a dot above keeps its dot. What becomes of any
other character, and so which of its two small forms a capital sigma takes, cannot make a word.
-/
namespace RpcScaffold

namespace Text

theorem caseRows_above_ascii : ∀ r ∈ caseRows,
    128 ≤ r.image ∨ r.last < 128 ∨ r = ⟨0x212A, 0x212A, 1, 0x006B⟩ := by
  decide +kernel

/-- No code point beyond ASCII is lowered into it, but for the Kelvin sign. -/
theorem lowerCode_of_not_ascii {n : Nat} (h : 128 ≤ n) :
    128 ≤ lowerCode n ∨ lowerCode n = 0x006B := by
  rcases lowerCode_cases n with own | ⟨r, hr, covered, lowered⟩
  · rw [own]
    exact Or.inl h
  · rw [lowered]
    obtain ⟨_, last, _⟩ := (CaseRow.covers_iff r n).mp covered
    obtain ⟨above, below⟩ := CaseRow.lower_bounds covered
    rcases caseRows_above_ascii r hr with high | low | rfl
    · exact Or.inl (Nat.le_trans high above)
    · omega
    · exact Or.inr (Nat.le_antisymm below above)

theorem lowerChar_of_not_ascii {c : Char} (h : 128 ≤ c.toNat) :
    ∃ d ∈ lowerChar c, 128 ≤ d.toNat ∨ d = 'k' := by
  by_cases dotted : c = dottedCapitalI
  · rw [lowerChar, if_pos dotted]
    exact ⟨Char.ofNat 0x0307, by simp, Or.inl (by decide)⟩
  · rw [lowerChar, if_neg dotted]
    refine ⟨_, List.mem_singleton.mpr rfl, ?_⟩
    rw [toNat_ofNat (isValidChar_lowerCode c)]
    rcases lowerCode_of_not_ascii h with high | kelvin
    · exact Or.inl high
    · exact Or.inr (congrArg Char.ofNat kelvin)

theorem toLower_of_not_ascii {c : Char} (h : 128 ≤ c.toNat) : c.toLower = c := by
  have noCapital : ¬ (c.val ≥ 'A'.val ∧ c.val ≤ 'Z'.val) := by
    rintro ⟨_, upper⟩
    have below : c.toNat ≤ 90 := UInt32.le_iff_toNat_le.mp upper
    omega
  exact dif_neg noCapital

theorem lower_of_ascii {s : String} (h : ∀ c ∈ s.toList, c.toNat < 128) :
    lower s = mapChars Char.toLower s := by
  have single : s.toList.map lowerChar = s.toList.map fun c => [c.toLower] :=
    List.map_congr_left fun c hc => lowerChar_of_ascii (h c hc)
  rw [← String.toList_inj, lower, toList_spellChars, toList_mapChars, List.flatMap_def, single,
    ← List.flatMap_def, List.map_eq_flatMap]

/-- A text is lowered to a word of ASCII without a k only by lowering letters of ASCII. -/
theorem lower_eq_iff {word : String} (plain : ∀ c ∈ word.toList, c.toNat < 128 ∧ c ≠ 'k')
    (s : String) : lower s = word ↔ mapChars Char.toLower s = word := by
  by_cases ascii : ∀ c ∈ s.toList, c.toNat < 128
  · rw [lower_of_ascii ascii]
  · -- A character beyond ASCII leaves its mark on both sides.
    simp only [Classical.not_forall, Nat.not_lt] at ascii
    obtain ⟨c, hc, high⟩ := ascii
    constructor
    · rintro rfl
      obtain ⟨d, hd, foreign⟩ := lowerChar_of_not_ascii high
      have written : d ∈ (lower s).toList := by
        rw [lower, toList_spellChars]
        exact List.mem_flatMap.mpr ⟨c, hc, hd⟩
      obtain ⟨below, noKelvin⟩ := plain d written
      rcases foreign with beyond | kelvin
      · omega
      · exact absurd kelvin noKelvin
    · rintro rfl
      have written : c ∈ (mapChars Char.toLower s).toList := by
        rw [toList_mapChars]
        exact List.mem_map.mpr ⟨c, hc, toLower_of_not_ascii high⟩
      have below := (plain c written).1
      omega

end Text

namespace Options

theorem words_plain {word : String} (h : word ∈ trueWords ++ falseWords) :
    ∀ c ∈ word.toList, c.toNat < 128 ∧ c ≠ 'k' := by
  have checked : ((trueWords ++ falseWords).all fun word =>
      word.toList.all fun c => Nat.blt c.toNat 128 && c != 'k') = true := by
    decide +kernel
  intro c hc
  simpa using List.all_eq_true.mp (List.all_eq_true.mp checked word h) c hc

theorem lower_mem_iff {words : List String} (h : words ⊆ trueWords ++ falseWords)
    (value : String) :
    Text.lower value ∈ words ↔ Text.mapChars Char.toLower value ∈ words := by
  constructor
  · intro word
    rwa [(Text.lower_eq_iff (words_plain (h word)) value).mp rfl]
  · intro word
    rwa [(Text.lower_eq_iff (words_plain (h word)) value).mpr rfl]

/-- A value is a flag when it is one of the flag's words in some ASCII case, and no flag when it
is none of the words in any. -/
theorem flag?_ascii (value : String) :
    (∀ flag, flag? value = some flag ↔
      Text.mapChars Char.toLower value ∈ if flag then trueWords else falseWords) ∧
    (flag? value = none ↔ Text.mapChars Char.toLower value ∉ trueWords ++ falseWords) := by
  constructor
  · intro flag
    rw [flag?_eq_some_iff]
    cases flag with
    | true => exact lower_mem_iff (List.subset_append_left _ _) value
    | false => exact lower_mem_iff (List.subset_append_right _ _) value
  · rw [flag?_eq_none_iff, lower_mem_iff (List.Subset.refl _)]

example : flag? "tRUE" = some true ∧ flag? "oFf" = some false ∧ flag? "ΟΝ" = none := by
  decide +kernel

end Options

end RpcScaffold
