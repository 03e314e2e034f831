import RpcScaffold.Method.Basic

/-!
# Handlers keep their names

The name of a handler is its own handler's name, and neither it nor a name derived from it is
reserved. For the first, lowering has to end after one step: what a row of the table gives is
covered by no row. That is checked row against row, not code point by code point. The second
rests on a single fact about the reserved words, that none of them has an underscore.

Nothing is said about different procedures, whose handlers may well have one name.
-/
namespace RpcScaffold

namespace Text

namespace CaseRow

/-- The last code point that the row leads to. -/
def top (r : CaseRow) : Nat := r.image + (r.last - r.first)

/-- A check that no code point is led from this row into the other: what it leads to lies before
the other or after it, or always between two steps of the other. -/
def avoids (r q : CaseRow) : Bool :=
  Nat.blt r.top q.first || Nat.blt q.last r.image ||
    ((r.step % q.step == 0 || r.last == r.first) && r.image % q.step != q.first % q.step)

/-- All that the row leads to are code points of characters. -/
def staysValid (r : CaseRow) : Bool :=
  Nat.blt r.top 0xD800 || (Nat.blt 0xDFFF r.image && Nat.blt r.top 0x110000)

theorem covers_iff (r : CaseRow) (n : Nat) :
    r.covers n = true ↔ r.first ≤ n ∧ n ≤ r.last ∧ r.step ∣ n - r.first := by
  simp [covers, Nat.dvd_iff_mod_eq_zero, and_assoc]

theorem lower_bounds {r : CaseRow} {n : Nat} (h : r.covers n = true) :
    r.image ≤ r.lower n ∧ r.lower n ≤ r.top := by
  obtain ⟨_, last, _⟩ := (covers_iff r n).mp h
  rw [lower, top]
  omega

/-- Code points of a row are lowered to code points with one remainder. -/
theorem lower_mod {r q : CaseRow} {n : Nat} (h : r.covers n = true)
    (even : r.step % q.step = 0 ∨ r.last = r.first) :
    r.lower n % q.step = r.image % q.step := by
  obtain ⟨first, last, steps⟩ := (covers_iff r n).mp h
  have whole : q.step ∣ n - r.first := by
    rcases even with even | single
    · exact Nat.dvd_trans (Nat.dvd_of_mod_eq_zero even) steps
    · have start : n - r.first = 0 := by omega
      exact start ▸ Nat.dvd_zero _
  obtain ⟨k, distance⟩ := whole
  rw [lower, distance, Nat.add_mul_mod_self_left]

theorem mod_of_covers {q : CaseRow} {n : Nat} (h : q.covers n = true) :
    n % q.step = q.first % q.step := by
  obtain ⟨first, _, k, distance⟩ := (covers_iff q n).mp h
  have point : n = q.first + q.step * k := by omega
  rw [point, Nat.add_mul_mod_self_left]

theorem not_covers_lower {r q : CaseRow} (apart : r.avoids q = true) {n : Nat}
    (h : r.covers n = true) : q.covers (r.lower n) = false := by
  rw [Bool.eq_false_iff]
  intro reached
  -- The reached point would lie in both ranges, and have the remainders of both rows.
  obtain ⟨above, below⟩ := lower_bounds h
  obtain ⟨start, stop, _⟩ := (covers_iff q _).mp reached
  simp only [avoids, Bool.or_eq_true, Nat.blt_eq, Bool.and_eq_true, beq_iff_eq, bne_iff_ne] at apart
  rcases apart with (before | after) | ⟨even, between⟩
  · omega
  · omega
  · exact between ((lower_mod h even).symm.trans (mod_of_covers reached))

theorem isValidChar_lower {r : CaseRow} (valid : r.staysValid = true) {n : Nat}
    (h : r.covers n = true) : (r.lower n).isValidChar := by
  obtain ⟨above, below⟩ := lower_bounds h
  simp only [staysValid, Bool.or_eq_true, Nat.blt_eq, Bool.and_eq_true] at valid
  rw [Nat.isValidChar]
  omega

/-- The capital I with a dot above, as if it had a row of its own. -/
def dottedI : CaseRow := ⟨0x0130, 0x0130, 1, 0x0130⟩

end CaseRow

theorem caseRows_avoid : ∀ r ∈ caseRows, ∀ q ∈ CaseRow.dottedI :: caseRows, r.avoids q = true := by
  have checked : (caseRows.all fun r => (CaseRow.dottedI :: caseRows).all r.avoids) = true := by
    decide +kernel
  intro r hr q hq
  exact List.all_eq_true.mp (List.all_eq_true.mp checked r hr) q hq

theorem caseRows_stayValid : ∀ r ∈ caseRows, r.staysValid = true := by
  decide +kernel

/-- A code point is its own lower case, or a row gives another one. -/
theorem lowerCode_cases (n : Nat) :
    lowerCode n = n ∨ ∃ r ∈ caseRows, r.covers n = true ∧ lowerCode n = r.lower n := by
  rw [lowerCode]
  cases found : caseRows.find? (·.covers n) with
  | none => exact Or.inl rfl
  | some r =>
    have covered : r.covers n = true := by simpa using List.find?_some found
    exact Or.inr ⟨r, List.mem_of_find?_eq_some found, covered, rfl⟩

theorem lowerCode_lowerCode (n : Nat) : lowerCode (lowerCode n) = lowerCode n := by
  rcases lowerCode_cases n with own | ⟨r, hr, covered, lowered⟩
  · rw [own, own]
  · have uncovered : caseRows.find? (·.covers (r.lower n)) = none := by
      rw [List.find?_eq_none]
      intro q hq
      have apart := caseRows_avoid r hr q (List.mem_cons_of_mem _ hq)
      simp [CaseRow.not_covers_lower apart covered]
    rw [lowered, lowerCode, uncovered]

theorem toNat_ofNat {n : Nat} (h : n.isValidChar) : (Char.ofNat n).toNat = n := by
  rw [Char.ofNat, dif_pos h]
  rfl

theorem isValidChar_lowerCode (c : Char) : (lowerCode c.toNat).isValidChar := by
  rcases lowerCode_cases c.toNat with own | ⟨r, hr, covered, lowered⟩
  · rw [own]
    exact c.valid
  · rw [lowered]
    exact CaseRow.isValidChar_lower (caseRows_stayValid r hr) covered

theorem lowerCode_ne_dotted {c : Char} (h : c ≠ dottedCapitalI) :
    lowerCode c.toNat ≠ 0x0130 := by
  rcases lowerCode_cases c.toNat with own | ⟨r, hr, covered, lowered⟩
  · intro same
    rw [own] at same
    refine h ?_
    rw [dottedCapitalI, ← same, Char.ofNat_toNat]
  · intro same
    have apart := caseRows_avoid r hr CaseRow.dottedI List.mem_cons_self
    have missed := CaseRow.not_covers_lower apart covered
    rw [← lowered, same] at missed
    exact absurd missed (by decide)

/-- Every character of a lower case is its own lower case. -/
theorem lowerChar_of_mem {c d : Char} (h : d ∈ lowerChar c) : lowerChar d = [d] := by
  by_cases dotted : c = dottedCapitalI
  · rw [lowerChar, if_pos dotted, List.mem_cons, List.mem_singleton] at h
    rcases h with rfl | rfl
    · decide +kernel
    · decide +kernel
  · rw [lowerChar, if_neg dotted, List.mem_singleton] at h
    have code : d.toNat = lowerCode c.toNat := by
      rw [h]
      exact toNat_ofNat (isValidChar_lowerCode c)
    have undotted : d ≠ dottedCapitalI := by
      intro same
      refine lowerCode_ne_dotted dotted ?_
      rw [← code, same]
      rfl
    rw [lowerChar, if_neg undotted, code, lowerCode_lowerCode, ← code, Char.ofNat_toNat]

theorem lowerChar_ne_nil (c : Char) : lowerChar c ≠ [] := by
  rw [lowerChar]
  split <;> simp

theorem lowerFirst_cons (c : Char) (cs : List Char) :
    lowerFirst (String.ofList (c :: cs)) = String.ofList (lowerChar c ++ cs) := by
  simp [lowerFirst]

theorem lowerFirst_lowerFirst (s : String) : lowerFirst (lowerFirst s) = lowerFirst s := by
  obtain ⟨cs, rfl⟩ : ∃ cs, s = String.ofList cs := ⟨s.toList, by simp⟩
  cases cs with
  | nil => rfl
  | cons c cs =>
    obtain ⟨d, ds, lowered⟩ := List.exists_cons_of_ne_nil (lowerChar_ne_nil c)
    have own : lowerChar d = [d] := lowerChar_of_mem (c := c) (by simp [lowered])
    rw [lowerFirst_cons, lowered, List.cons_append, lowerFirst_cons, own]
    rfl

theorem lowerFirst_append {s : String} (h : s ≠ "") (t : String) :
    lowerFirst (s ++ t) = lowerFirst s ++ t := by
  cases chars : s.toList with
  | nil => exact absurd (String.toList_eq_nil_iff.mp chars) h
  | cons c cs =>
    rw [← String.toList_inj]
    simp [lowerFirst, chars]

end Text

namespace Name

theorem notMem_keywords_of_underscore {name : String} (h : '_' ∈ name.toList) :
    name ∉ Vocabulary.keywords := by
  have words : ∀ word ∈ Vocabulary.keywords, '_' ∉ word.toList := by decide +kernel
  exact fun reserved => words name reserved h

theorem avoidKeyword_notMem (name : String) : avoidKeyword name ∉ Vocabulary.keywords := by
  rw [avoidKeyword]
  split
  · exact notMem_keywords_of_underscore (by simp)
  · assumption

theorem lowerFirst_handler (rpc : String) : Text.lowerFirst (handler rpc) = handler rpc := by
  rw [handler, avoidKeyword]
  split
  · next reserved =>
    -- The underscore comes after at least one character, so it is not what is lowered.
    have named : Text.lowerFirst rpc ≠ "" := by
      intro empty
      rw [empty] at reserved
      exact absurd reserved (by decide +kernel)
    rw [Text.lowerFirst_append named, Text.lowerFirst_lowerFirst]
  · exact Text.lowerFirst_lowerFirst rpc

/-- A handler is handled by itself, and its name and those of its adapter and its descriptor are
free for use, whatever text the procedure is called by. The names that a method has are these. -/
theorem handler_settled :
    (∀ rpc, handler (handler rpc) = handler rpc ∧ handler rpc ∉ Vocabulary.keywords ∧
      handler rpc ++ Vocabulary.adapterSuffix ∉ Vocabulary.keywords ∧
      Vocabulary.descriptorStem ++ handler rpc ∉ Vocabulary.keywords) ∧
    ∀ m : Method, m.handler ∉ Vocabulary.keywords ∧ m.adapter ∉ Vocabulary.keywords ∧
      m.descriptor ∉ Vocabulary.keywords := by
  have free : ∀ rpc, handler rpc ∉ Vocabulary.keywords ∧
      handler rpc ++ Vocabulary.adapterSuffix ∉ Vocabulary.keywords ∧
      Vocabulary.descriptorStem ++ handler rpc ∉ Vocabulary.keywords := by
    intro rpc
    refine ⟨avoidKeyword_notMem _, ?_, ?_⟩
    · exact notMem_keywords_of_underscore (by simp [Vocabulary.adapterSuffix])
    · exact notMem_keywords_of_underscore (by simp [Vocabulary.descriptorStem])
  refine ⟨fun rpc => ⟨?_, free rpc⟩, fun m => free m.rpc.name⟩
  rw [handler, lowerFirst_handler, avoidKeyword, if_neg (free rpc).1]

example : handler "" = "" ∧ handler "Import" = "import_" ∧ handler "import_" = "import_" ∧
    handler (String.ofList [Text.dottedCapitalI, 'D']) =
      String.ofList ['i', Char.ofNat 0x0307, 'D'] := by
  decide +kernel

end Name

end RpcScaffold
