import RpcScaffold.Text.Basic

/-!
# Cutting text and joining it

Cutting at a separator undoes joining with it, as long as no piece contains the
separator; the pieces put together are the text without its separators. Pieces have no
separator in them, so a text is given by its pieces and has them in one way only.
-/
namespace RpcScaffold.Text

theorem cut_cons_of_ne {sep c : Char} (h : c ≠ sep) (cs : List Char) :
    ∃ piece pieces, cut sep cs = piece :: pieces ∧ cut sep (c :: cs) = (c :: piece) :: pieces := by
  cases rest : cut sep cs with
  | nil => exact False.elim (cut_ne_nil sep cs rest)
  | cons piece pieces =>
    refine ⟨piece, pieces, rfl, ?_⟩
    rw [cut, if_neg h, rest]

theorem cut_of_notMem {sep : Char} {cs : List Char} (h : sep ∉ cs) : cut sep cs = [cs] := by
  induction cs with
  | nil => rfl
  | cons c cs ih =>
    have apart : c ≠ sep := fun same => h (same ▸ List.mem_cons_self)
    obtain ⟨piece, pieces, rest, first⟩ := cut_cons_of_ne apart cs
    rw [ih fun hmem => h (List.mem_cons_of_mem c hmem)] at rest
    cases rest
    exact first

theorem cut_append_sep {sep : Char} {cs : List Char} (h : sep ∉ cs) (rest : List Char) :
    cut sep (cs ++ sep :: rest) = cs :: cut sep rest := by
  induction cs with
  | nil => rw [List.nil_append, cut, if_pos rfl]
  | cons c cs ih =>
    have apart : c ≠ sep := fun same => h (same ▸ List.mem_cons_self)
    obtain ⟨piece, pieces, inner, first⟩ := cut_cons_of_ne apart (cs ++ sep :: rest)
    rw [ih fun hmem => h (List.mem_cons_of_mem c hmem)] at inner
    cases inner
    exact first

theorem flatten_cut (sep : Char) (cs : List Char) :
    (cut sep cs).flatten = cs.filter (· ≠ sep) := by
  induction cs with
  | nil => rfl
  | cons c cs ih =>
    by_cases same : c = sep
    · rw [cut, if_pos same, List.flatten_cons, List.nil_append, ih]
      simp [same]
    · obtain ⟨piece, pieces, inner, first⟩ := cut_cons_of_ne same cs
      rw [inner, List.flatten_cons] at ih
      rw [first, List.flatten_cons, List.cons_append, ih]
      simp [same]

theorem cut_intercalate {sep : Char} {items : List (List Char)} (nonempty : items ≠ [])
    (absent : ∀ cs ∈ items, sep ∉ cs) : cut sep (List.intercalate [sep] items) = items := by
  induction items with
  | nil => exact False.elim (nonempty rfl)
  | cons cs items ih =>
    have first := absent cs List.mem_cons_self
    cases items with
    | nil =>
      rw [List.intercalate_singleton]
      exact cut_of_notMem first
    | cons next items =>
      rw [List.intercalate_cons_cons, List.append_assoc, List.singleton_append,
        cut_append_sep first, ih (by simp) fun ds hds => absent ds (List.mem_cons_of_mem cs hds)]

/-- A separator between two texts keeps their pieces apart. -/
theorem cut_append (sep : Char) (cs rest : List Char) :
    cut sep (cs ++ sep :: rest) = cut sep cs ++ cut sep rest := by
  induction cs with
  | nil => simp [cut]
  | cons c cs ih =>
    by_cases same : c = sep
    · rw [List.cons_append, cut, if_pos same, ih, cut, if_pos same, List.cons_append]
    · obtain ⟨piece, pieces, inner, first⟩ := cut_cons_of_ne same cs
      obtain ⟨_, _, joined, whole⟩ := cut_cons_of_ne same (cs ++ sep :: rest)
      rw [ih, inner, List.cons_append, List.cons.injEq] at joined
      rw [List.cons_append, whole, first, List.cons_append, joined.1, joined.2]

theorem notMem_of_mem_cut {sep : Char} {cs piece : List Char} (h : piece ∈ cut sep cs) :
    sep ∉ piece := by
  induction cs generalizing piece with
  | nil =>
    rw [cut, List.mem_singleton] at h
    simp [h]
  | cons c cs ih =>
    by_cases same : c = sep
    · rw [cut, if_pos same] at h
      rcases List.mem_cons.mp h with rfl | h
      · simp
      · exact ih h
    · obtain ⟨front, pieces, inner, first⟩ := cut_cons_of_ne same cs
      rw [first] at h
      rcases List.mem_cons.mp h with rfl | h
      · have rest : sep ∉ front := ih (by rw [inner]; exact List.mem_cons_self)
        simp [rest, Ne.symm same]
      · exact ih (by rw [inner]; exact List.mem_cons_of_mem front h)

theorem intercalate_cut (sep : Char) (cs : List Char) :
    List.intercalate [sep] (cut sep cs) = cs := by
  induction cs with
  | nil => rfl
  | cons c cs ih =>
    by_cases same : c = sep
    · obtain ⟨piece, pieces, inner⟩ := List.exists_cons_of_ne_nil (cut_ne_nil sep cs)
      rw [inner] at ih
      rw [cut, if_pos same, inner, List.intercalate_cons_cons, ih, same]
      rfl
    · obtain ⟨piece, pieces, inner, first⟩ := cut_cons_of_ne same cs
      rw [inner] at ih
      rw [first]
      cases pieces with
      | nil =>
        rw [List.intercalate_singleton] at ih ⊢
        rw [ih]
      | cons next pieces =>
        rw [List.intercalate_cons_cons] at ih ⊢
        rw [List.cons_append, List.cons_append, ih]

/-- Pieces that a separator joins to a text and that have no separator in them. -/
structure Joined (sep : Char) (s : String) (items : List String) : Prop where
  nonempty : items ≠ []
  absent : ∀ item ∈ items, sep ∉ item.toList
  joins : s = String.intercalate (String.singleton sep) items

theorem joined_pieces (sep : Char) (s : String) : Joined sep s (pieces sep s) where
  nonempty := by simp [pieces, cut_ne_nil]
  absent item h := by
    obtain ⟨piece, hpiece, rfl⟩ := List.mem_map.mp h
    rw [String.toList_ofList]
    exact notMem_of_mem_cut hpiece
  joins := by
    rw [← String.toList_inj, String.toList_intercalate, pieces, List.map_map]
    simp [intercalate_cut]

theorem Joined.pieces_eq {sep : Char} {s : String} {items : List String}
    (joined : Joined sep s items) : pieces sep s = items := by
  have absent : ∀ cs ∈ items.map String.toList, sep ∉ cs := by
    intro cs hcs
    obtain ⟨item, hitem, rfl⟩ := List.mem_map.mp hcs
    exact joined.absent item hitem
  rw [pieces, joined.joins, String.toList_intercalate, String.toList_singleton,
    cut_intercalate (by simpa using joined.nonempty) absent, List.map_map]
  simp

theorem pieces_append (sep : Char) (s t : String) :
    pieces sep (s ++ String.singleton sep ++ t) = pieces sep s ++ pieces sep t := by
  simp [pieces, cut_append]

end RpcScaffold.Text
