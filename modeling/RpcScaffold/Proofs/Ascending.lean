import RpcScaffold.Origin

/-!
# Ascending lists over a linear test

The tests by which texts and origins are ordered are strict linear orders. Over such
a test an ascending list holds each member once, and joining items to it adds these
items and nothing else. Two items that no test tells apart are equal, so an item that
is left out while joining is already there. An ascending list is given by its members,
in whatever order and however often they were joined.
-/
namespace RpcScaffold.Ordered

variable {α : Type} {before : α → α → Bool}

/-- The laws of a strict linear order, for a test. -/
structure Linear (before : α → α → Bool) : Prop where
  irrefl : ∀ a, before a a = false
  trans : ∀ a b c, before a b = true → before b c = true → before a c = true
  connected : ∀ a b, before a b = false → before b a = false → a = b

def Ascending (before : α → α → Bool) (set : List α) : Prop :=
  set.Pairwise fun a b => before a b = true

namespace Linear

/-- An order pulled back along an injection. -/
theorem comap {β : Type} (order : Linear before) (f : β → α)
    (injective : ∀ a b, f a = f b → a = b) :
    Linear fun a b => before (f a) (f b) where
  irrefl a := order.irrefl (f a)
  trans a b c := order.trans (f a) (f b) (f c)
  connected a b hab hba := injective a b (order.connected (f a) (f b) hab hba)

theorem listBefore_irrefl (order : Linear before) (as : List α) :
    listBefore before as as = false := by
  induction as with
  | nil => rfl
  | cons a as ih => simp [listBefore, order.irrefl a, ih]

/-- A list comes before another by its first member, or by its tail when the first
members are equal. -/
theorem listBefore_cons_iff (order : Linear before) (a b : α) (as bs : List α) :
    listBefore before (a :: as) (b :: bs) = true ↔
      before a b = true ∨ a = b ∧ listBefore before as bs = true := by
  simp only [listBefore, Bool.or_eq_true, Bool.and_eq_true, Bool.not_eq_true']
  constructor
  · rintro (hab | ⟨hba, tails⟩)
    · exact Or.inl hab
    · cases hab : before a b with
      | true => exact Or.inl rfl
      | false => exact Or.inr ⟨order.connected a b hab hba, tails⟩
  · rintro (hab | ⟨rfl, tails⟩)
    · exact Or.inl hab
    · exact Or.inr ⟨order.irrefl a, tails⟩

theorem listBefore_trans (order : Linear before) (as bs cs : List α)
    (hab : listBefore before as bs = true) (hbc : listBefore before bs cs = true) :
    listBefore before as cs = true := by
  induction as generalizing bs cs with
  | nil =>
    cases cs with
    | nil => cases bs <;> simp [listBefore] at hbc
    | cons c cs => rfl
  | cons a as ih =>
    cases bs with
    | nil => simp [listBefore] at hab
    | cons b bs =>
      cases cs with
      | nil => simp [listBefore] at hbc
      | cons c cs =>
        rw [order.listBefore_cons_iff] at hab hbc ⊢
        rcases hab with hab | ⟨rfl, tab⟩
        · rcases hbc with hbc | ⟨rfl, _⟩
          · exact Or.inl (order.trans a b c hab hbc)
          · exact Or.inl hab
        · rcases hbc with hbc | ⟨rfl, tbc⟩
          · exact Or.inl hbc
          · exact Or.inr ⟨rfl, ih bs cs tab tbc⟩

theorem listBefore_connected (order : Linear before) (as bs : List α)
    (hab : listBefore before as bs = false) (hba : listBefore before bs as = false) : as = bs := by
  induction as generalizing bs with
  | nil =>
    cases bs with
    | nil => rfl
    | cons b bs => simp [listBefore] at hab
  | cons a as ih =>
    cases bs with
    | nil => simp [listBefore] at hba
    | cons b bs =>
      rw [← Bool.not_eq_true, order.listBefore_cons_iff, not_or] at hab hba
      have heads : a = b :=
        order.connected a b (by simpa using hab.1) (by simpa using hba.1)
      subst heads
      have tails : as = bs := by
        apply ih bs
        · simpa using hab.2
        · simpa using hba.2
      rw [tails]

theorem listBefore (order : Linear before) : Linear (Ordered.listBefore before) where
  irrefl := order.listBefore_irrefl
  trans := order.listBefore_trans
  connected := order.listBefore_connected

end Linear

theorem charBefore_linear : Linear charBefore where
  irrefl a := by simp [charBefore]
  trans a b c hab hbc := by
    simp only [charBefore, decide_eq_true_eq] at *
    omega
  connected a b hab hba := by
    simp only [charBefore, decide_eq_false_iff_not] at hab hba
    have code : a.toNat = b.toNat := by omega
    exact Char.toNat_inj.mp code

theorem textBefore_linear : Linear textBefore :=
  charBefore_linear.listBefore.comap String.toList fun _ _ => String.toList_inj.mp

theorem listBefore_char_iff (as bs : List Char) :
    listBefore charBefore as bs = true ↔ as < bs := by
  induction as generalizing bs with
  | nil =>
    cases bs with
    | nil => simp [listBefore]
    | cons b bs => simp [listBefore]
  | cons a as ih =>
    cases bs with
    | nil => simp [listBefore]
    | cons b bs =>
      have first : charBefore a b = true ↔ a < b := decide_eq_true_iff
      rw [charBefore_linear.listBefore_cons_iff, first, ih, List.cons_lt_cons_iff]

/-- The order of texts is that of their code points. -/
theorem textBefore_iff (a b : String) : textBefore a b = true ↔ a < b := by
  rw [textBefore, listBefore_char_iff, String.lt_iff]

theorem mem_insert (order : Linear before) (a b : α) (set : List α) :
    b ∈ insert before a set ↔ b = a ∨ b ∈ set := by
  induction set with
  | nil => simp [insert]
  | cons c cs ih =>
    rw [insert]
    by_cases hac : before a c = true
    · simp [hac]
    · by_cases hca : before c a = true
      · simp only [hac, hca, if_true, if_false, List.mem_cons, ih, Bool.false_eq_true]
        exact or_left_comm
      · have same : a = c := order.connected a c (by simpa using hac) (by simpa using hca)
        rw [if_neg hac, if_neg hca, same, List.mem_cons, ← or_assoc, or_self]

theorem insert_ascending (order : Linear before) (a : α) (set : List α)
    (h : Ascending before set) : Ascending before (insert before a set) := by
  induction set with
  | nil => exact List.pairwise_singleton _ _
  | cons c cs ih =>
    obtain ⟨first, rest⟩ := List.pairwise_cons.mp h
    rw [insert]
    by_cases hac : before a c = true
    · rw [if_pos hac]
      refine List.pairwise_cons.mpr ⟨?_, h⟩
      intro b hb
      rcases List.mem_cons.mp hb with rfl | hb
      · exact hac
      · exact order.trans a c b hac (first b hb)
    · rw [if_neg hac]
      by_cases hca : before c a = true
      · rw [if_pos hca]
        refine List.pairwise_cons.mpr ⟨?_, ih rest⟩
        intro b hb
        rcases (mem_insert order a b cs).mp hb with rfl | hb
        · exact hca
        · exact first b hb
      · rw [if_neg hca]
        exact h

theorem mem_insertAll (order : Linear before) (items set : List α) (b : α) :
    b ∈ insertAll before items set ↔ b ∈ items ∨ b ∈ set := by
  induction items generalizing set with
  | nil => simp [insertAll]
  | cons a items ih =>
    have step := ih (insert before a set)
    rw [insertAll, List.foldl_cons, ← insertAll, step, mem_insert order, List.mem_cons]
    exact or_left_comm.trans or_assoc.symm

theorem insertAll_ascending (order : Linear before) (items set : List α)
    (h : Ascending before set) : Ascending before (insertAll before items set) := by
  induction items generalizing set with
  | nil => exact h
  | cons a items ih => exact ih (insert before a set) (insert_ascending order a set h)

theorem mem_ofList (order : Linear before) (items : List α) (b : α) :
    b ∈ ofList before items ↔ b ∈ items := by
  simp [ofList, mem_insertAll order]

theorem ofList_ascending (order : Linear before) (items : List α) :
    Ascending before (ofList before items) :=
  insertAll_ascending order items [] List.Pairwise.nil

theorem Ascending.nodup (order : Linear before) {set : List α} (h : Ascending before set) :
    set.Nodup := by
  refine List.Pairwise.imp ?_ h
  intro a b hab same
  rw [same, order.irrefl b] at hab
  cases hab

theorem Ascending.ext (order : Linear before) {set other : List α} (h : Ascending before set)
    (hother : Ascending before other) (same : ∀ a, a ∈ set ↔ a ∈ other) : set = other := by
  have rearranged : set.Perm other :=
    (List.perm_ext_iff_of_nodup (h.nodup order) (hother.nodup order)).mpr same
  refine rearranged.eq_of_pairwise ?_ h hother
  intro a b _ _ hab hba
  have cycle := order.trans a b a hab hba
  rw [order.irrefl] at cycle
  cases cycle

theorem ofList_congr (order : Linear before) {items others : List α}
    (same : ∀ a, a ∈ items ↔ a ∈ others) : ofList before items = ofList before others := by
  apply (ofList_ascending order items).ext order (ofList_ascending order others)
  intro a
  rw [mem_ofList order, mem_ofList order, same]

end RpcScaffold.Ordered

namespace RpcScaffold.Origin

theorem key_injective (a b : Origin) (h : a.key = b.key) : a = b := by
  cases a
  cases b
  simp only [key, List.cons.injEq, and_true] at h
  obtain ⟨rfl, rfl, rfl, rfl⟩ := h
  rfl

theorem before_linear : Ordered.Linear before :=
  Ordered.textBefore_linear.listBefore.comap key key_injective

end RpcScaffold.Origin
