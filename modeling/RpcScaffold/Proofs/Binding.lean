import RpcScaffold.Binding
import RpcScaffold.Proofs.Steps

/-!
# Claims on names

A list of claims, made one after the other, is granted exactly when no name is claimed
for two holders, counting the bindings that were there before. The claims need not be
made in one place: claims of several lists, list by list, are the claims of the joined
list.
-/
namespace RpcScaffold.Bindings

variable {Holder ε : Type}

/-- Another wording of a fault changes nothing about success. -/
theorem mapError_eq_ok_iff {α δ : Type} (reword : ε → δ) (result : Except ε α) (value : α) :
    result.mapError reword = .ok value ↔ result = .ok value := by
  cases result with
  | ok found =>
    constructor
    · intro h
      cases h
      rfl
    · intro h
      cases h
      rfl
  | error fault =>
    constructor
    · intro h
      cases h
    · intro h
      cases h

/-- No name has two holders. -/
def Functional (pairs : List (String × Holder)) : Prop :=
  ∀ p ∈ pairs, ∀ q ∈ pairs, p.1 = q.1 → p.2 = q.2

theorem Functional.congr {first second : List (String × Holder)}
    (same : ∀ p, p ∈ first ↔ p ∈ second) : Functional first ↔ Functional second := by
  simp only [Functional, same]

theorem Functional.of_append {first second : List (String × Holder)}
    (h : Functional (first ++ second)) : Functional first := by
  intro p hp q hq
  exact h p (List.mem_append_left _ hp) q (List.mem_append_left _ hq)

theorem holder?_eq_none_iff (bound : Bindings Holder) (name : String) :
    bound.holder? name = none ↔ ∀ p ∈ bound, p.1 ≠ name := by
  rw [holder?, List.lookup_eq_none_iff]
  simp only [bne_iff_ne, ne_comm]

theorem mem_of_holder? {bound : Bindings Holder} {name : String} {holder : Holder}
    (h : bound.holder? name = some holder) : (name, holder) ∈ bound := by
  obtain ⟨front, back, rfl, _⟩ := List.lookup_eq_some_iff.mp h
  simp

variable [DecidableEq Holder]

/-- A granted claim adds its binding and no other. -/
theorem mem_of_claim {bound after : Bindings Holder} {name : String} {holder : Holder}
    (h : bound.claim name holder = .ok after) (p : String × Holder) :
    p ∈ after ↔ p ∈ bound ∨ p = (name, holder) := by
  cases found : bound.holder? name with
  | none =>
    simp only [claim, found, Except.ok.injEq] at h
    subst after
    simp
  | some first =>
    by_cases same : first = holder
    · simp only [claim, found, if_pos same, Except.ok.injEq] at h
      subst after same
      constructor
      · exact Or.inl
      · rintro (hp | rfl)
        · exact hp
        · exact mem_of_holder? found
    · simp [claim, found, if_neg same] at h

/-- A claim is refused for another holder that has the name. -/
theorem mem_of_claim_error {bound : Bindings Holder} {name : String} {holder first : Holder}
    (h : bound.claim name holder = .error first) : (name, first) ∈ bound ∧ first ≠ holder := by
  cases found : bound.holder? name with
  | none => simp [claim, found] at h
  | some other =>
    by_cases same : other = holder
    · simp [claim, found, if_pos same] at h
    · simp only [claim, found, if_neg same, Except.error.injEq] at h
      subst h
      exact ⟨mem_of_holder? found, same⟩

theorem claim_ok_iff {bound : Bindings Holder} (functional : Functional bound) (name : String)
    (holder : Holder) :
    (∃ after, bound.claim name holder = .ok after) ↔ Functional (bound ++ [(name, holder)]) := by
  cases found : bound.holder? name with
  | none =>
    have fresh := (holder?_eq_none_iff bound name).mp found
    refine ⟨fun _ => ?_, fun _ => ⟨_, by rw [claim, found]⟩⟩
    intro p hp q hq names
    rcases List.mem_append.mp hp with hp | hp
    · rcases List.mem_append.mp hq with hq | hq
      · exact functional p hp q hq names
      · rw [List.mem_singleton.mp hq] at names
        exact False.elim (fresh p hp names)
    · rcases List.mem_append.mp hq with hq | hq
      · rw [List.mem_singleton.mp hp] at names
        exact False.elim (fresh q hq names.symm)
      · rw [List.mem_singleton.mp hp, List.mem_singleton.mp hq]
  | some first =>
    have held := mem_of_holder? found
    constructor
    · rintro ⟨after, h⟩
      have same : first = holder := by
        by_cases same : first = holder
        · exact same
        · simp [claim, found, if_neg same] at h
      subst same
      refine (Functional.congr fun p => ?_).mpr functional
      constructor
      · intro hp
        rcases List.mem_append.mp hp with hp | hp
        · exact hp
        · rw [List.mem_singleton.mp hp]
          exact held
      · exact List.mem_append_left _
    · intro h
      have same : first = holder := h (name, first) (List.mem_append_left _ held)
        (name, holder) (List.mem_append_right _ (List.mem_singleton_self _)) rfl
      exact ⟨bound, by rw [claim, found]; simp [same]⟩

/-- Claims in order, each under a test of its own: all of them are granted exactly when all
pass their tests and no name is claimed for two holders. -/
theorem foldlM_claim_ok_iff {γ : Type} (step : Bindings Holder → γ → Except ε (Bindings Holder))
    (pair : γ → String × Holder) (allowed : γ → Prop)
    (granted : ∀ bound c after,
      step bound c = .ok after ↔ allowed c ∧ bound.claim (pair c).1 (pair c).2 = .ok after)
    (claims : List γ) (bound : Bindings Holder) (functional : Functional bound) :
    (∃ after, claims.foldlM step bound = .ok after) ↔
      (∀ c ∈ claims, allowed c) ∧ Functional (bound ++ claims.map pair) := by
  induction claims generalizing bound with
  | nil => simpa [pure, Except.pure] using functional
  | cons c claims ih =>
    rw [List.foldlM_cons]
    cases first : step bound c with
    | error fault =>
      -- The first claim already fails, so one of the two conditions does.
      constructor
      · rintro ⟨_, h⟩
        cases h
      · rintro ⟨passes, all⟩
        have split : Functional ((bound ++ [pair c]) ++ claims.map pair) := by
          simpa using all
        have prefixed : Functional (bound ++ [pair c]) := split.of_append
        obtain ⟨after, h⟩ := (claim_ok_iff functional (pair c).1 (pair c).2).mpr prefixed
        have ok := (granted bound c after).mpr ⟨passes c List.mem_cons_self, h⟩
        rw [first] at ok
        cases ok
    | ok after =>
      obtain ⟨passes, h⟩ := (granted bound c after).mp first
      have members := mem_of_claim h
      have extended : Functional (bound ++ [((pair c).1, (pair c).2)]) :=
        (claim_ok_iff functional (pair c).1 (pair c).2).mp ⟨after, h⟩
      have functionalAfter : Functional after :=
        (Functional.congr fun p => by simp [members p]).mp extended
      have rest : Functional (after ++ claims.map pair) ↔
          Functional (bound ++ (c :: claims).map pair) :=
        Functional.congr fun p => by simp [members p, or_assoc]
      change (∃ final, claims.foldlM step after = .ok final) ↔ _
      rw [ih after functionalAfter, rest]
      simp [passes]

omit [DecidableEq Holder] in
/-- Claims of several lists, list by list, are the claims of the joined list. -/
theorem foldlM_flatMap {α β σ : Type} (items : List α) (claims : α → List β)
    (step : σ → β → Except ε σ) (start : σ) :
    (items.flatMap claims).foldlM step start =
      items.foldlM (fun state a => (claims a).foldlM step state) start := by
  induction items generalizing start with
  | nil => rfl
  | cons a items ih => simp only [List.flatMap_cons, List.foldlM_append, List.foldlM_cons, ih]

/-- A fault of claims in order is the fault of one of them, at names that were bound at the
start or claimed before. -/
theorem error_of_foldlM_claim {γ : Type} {step : Bindings Holder → γ → Except ε (Bindings Holder)}
    (pair : γ → String × Holder)
    (granted : ∀ bound c after,
      step bound c = .ok after → bound.claim (pair c).1 (pair c).2 = .ok after)
    {claims : List γ} {bound : Bindings Holder} {fault : ε}
    (h : claims.foldlM step bound = .error fault) :
    ∃ reached, ∃ c ∈ claims, (∀ p ∈ reached, p ∈ bound ++ claims.map pair) ∧
      step reached c = .error fault := by
  induction claims generalizing bound with
  | nil => cases h
  | cons c claims ih =>
    rw [List.foldlM_cons] at h
    cases first : step bound c with
    | error other =>
      rw [first] at h
      cases h
      exact ⟨bound, c, List.mem_cons_self, fun p hp => List.mem_append_left _ hp, first⟩
    | ok after =>
      rw [first] at h
      have members := mem_of_claim (granted bound c after first)
      obtain ⟨reached, later, hlater, known, failed⟩ := ih h
      refine ⟨reached, later, List.mem_cons_of_mem _ hlater, ?_, failed⟩
      intro p hp
      have found := known p hp
      simp only [List.mem_append, members p] at found
      rcases found with (old | new) | rest
      · exact List.mem_append_left _ old
      · rw [new]
        exact List.mem_append_right _ List.mem_cons_self
      · exact List.mem_append_right _ (List.mem_cons_of_mem _ rest)

/-- A claim on a name that something else was the first to hold. -/
def Contested (bound : Bindings Holder) (c : String × Holder) : Prop :=
  ∃ first, bound.holder? c.1 = some first ∧ first ≠ c.2

theorem claim_eq_error_iff (bound : Bindings Holder) (name : String) (holder first : Holder) :
    bound.claim name holder = .error first ↔ bound.holder? name = some first ∧ first ≠ holder := by
  cases found : bound.holder? name with
  | none => simp [claim, found]
  | some other =>
    by_cases same : other = holder
    · subst same
      simp only [claim, found, if_true, Option.some.injEq, reduceCtorEq, false_iff, not_and]
      rintro rfl apart
      exact apart rfl
    · simp only [claim, found, if_neg same, Except.error.injEq, Option.some.injEq, iff_self_and]
      rintro rfl
      exact same

theorem not_contested_of_claim {bound after : Bindings Holder} {c : String × Holder}
    (h : bound.claim c.1 c.2 = .ok after) : ¬ Contested bound c := by
  rintro ⟨first, held, other⟩
  rw [(claim_eq_error_iff bound c.1 c.2 first).mpr ⟨held, other⟩] at h
  cases h

/-- A claim that is granted changes only who holds its own name, and that only if it was free. -/
theorem holder?_of_claim {bound after : Bindings Holder} {c : String × Holder}
    (h : bound.claim c.1 c.2 = .ok after) (name : String) :
    after.holder? name = holder? (bound ++ [c]) name := by
  obtain ⟨claimed, holder⟩ := c
  cases found : bound.holder? claimed with
  | none =>
    simp only [claim, found, Except.ok.injEq] at h
    subst h
    rfl
  | some first =>
    have same : first = holder :=
      Decidable.of_not_not fun other => not_contested_of_claim h ⟨first, found, other⟩
    simp only [claim, found, if_pos same, Except.ok.injEq] at h
    subst h
    rw [holder?] at found
    by_cases own : name = claimed
    · simp [holder?, List.lookup_append, own, found]
    · have apart : (name == claimed) = false := by simpa using own
      simp [holder?, List.lookup_append, List.lookup_cons, apart]

section
variable {γ : Type} {step : Bindings Holder → γ → Except ε (Bindings Holder)}
  (pair : γ → String × Holder)
  (granted : ∀ bound c after,
    step bound c = .ok after → bound.claim (pair c).1 (pair c).2 = .ok after)
include granted

/-- After claims that were all granted, a name has the holder that came first. -/
theorem holder?_of_foldlM_claim {claims : List γ} {bound after : Bindings Holder}
    (h : claims.foldlM step bound = .ok after) (name : String) :
    after.holder? name = holder? (bound ++ claims.map pair) name := by
  induction claims generalizing bound with
  | nil =>
    cases h
    simp
  | cons c claims ih =>
    rw [List.foldlM_cons] at h
    obtain ⟨next, first, rest⟩ := bind_eq_ok h
    have own := holder?_of_claim (granted bound c next first) name
    rw [ih rest, holder?, List.lookup_append, ← holder?, own, List.map_cons, holder?, holder?,
      ← List.lookup_append, List.append_assoc]
    rfl

/-- The claim at which a fold fails is refused, and none before it was contested. -/
theorem first_of_foldlM_claim {claims : List γ} {bound : Bindings Holder} {fault : ε}
    (h : claims.foldlM step bound = .error fault) :
    ∃ before c after reached, claims = before ++ c :: after ∧ step reached c = .error fault ∧
      (∀ name, reached.holder? name = holder? (bound ++ before.map pair) name) ∧
      ∀ early d late, before = early ++ d :: late →
        ¬ Contested (bound ++ early.map pair) (pair d) := by
  obtain ⟨before, c, after, reached, split, passed, failed⟩ := foldlM_eq_error h
  refine ⟨before, c, after, reached, split, failed, holder?_of_foldlM_claim pair granted passed, ?_⟩
  rintro early d late rfl ⟨first, held, other⟩
  rw [List.foldlM_append] at passed
  obtain ⟨middle, start, rest⟩ := bind_eq_ok passed
  rw [List.foldlM_cons] at rest
  obtain ⟨next, own, _⟩ := bind_eq_ok rest
  rw [← holder?_of_foldlM_claim pair granted start] at held
  exact not_contested_of_claim (granted middle d next own) ⟨first, held, other⟩

end

end RpcScaffold.Bindings
