import RpcScaffold.Outcome

/-!
# Steps in a row

What a sequence of steps comes to, told from its single steps: all of them succeed, or
the first that fails decides the result.
-/
namespace RpcScaffold

/-- Either no item of a list has a property, or some item is the first that has it. -/
theorem none_or_first {α : Type} (property : α → Prop) (items : List α) :
    (∀ a ∈ items, ¬ property a) ∨
    ∃ front a back, items = front ++ a :: back ∧ (∀ b ∈ front, ¬ property b) ∧ property a := by
  induction items with
  | nil => exact Or.inl (List.forall_mem_nil _)
  | cons a items ih =>
    by_cases has : property a
    · exact Or.inr ⟨[], a, items, rfl, List.forall_mem_nil _, has⟩
    · rcases ih with none | ⟨front, b, back, rfl, before, hb⟩
      · exact Or.inl (List.forall_mem_cons.mpr ⟨has, none⟩)
      · exact Or.inr ⟨a :: front, b, back, rfl, List.forall_mem_cons.mpr ⟨has, before⟩, hb⟩

theorem bind_eq_ok {α β ε : Type} {first : Except ε α} {next : α → Except ε β} {value : β}
    (h : first >>= next = .ok value) : ∃ a, first = .ok a ∧ next a = .ok value := by
  cases first with
  | error fault => cases h
  | ok a => exact ⟨a, rfl, h⟩

theorem map_eq_ok {α β ε : Type} {first : Except ε α} {change : α → β} {value : β}
    (h : first.map change = .ok value) : ∃ a, first = .ok a ∧ value = change a := by
  cases first with
  | error fault => cases h
  | ok a => exact ⟨a, rfl, (Except.ok.inj h).symm⟩

theorem exists_mapM_of_ok {α β ε : Type} (step : α → Except ε β) (items : List α)
    (succeeds : ∀ a ∈ items, ∃ b, step a = .ok b) : ∃ values, items.mapM step = .ok values := by
  induction items with
  | nil => exact ⟨[], rfl⟩
  | cons a items ih =>
    obtain ⟨b, first⟩ := succeeds a List.mem_cons_self
    obtain ⟨values, rest⟩ := ih fun c hc => succeeds c (List.mem_cons_of_mem a hc)
    exact ⟨b :: values, by rw [List.mapM_cons, first, rest]; rfl⟩

/-- What other steps come to, when each of them is told from the step that succeeded. -/
theorem mapM_of_ok {α β γ ε : Type} {step : α → Except ε β} (other : α → Except ε γ)
    (change : β → γ) (each : ∀ a b, step a = .ok b → other a = .ok (change b)) {items : List α}
    {values : List β} (h : items.mapM step = .ok values) :
    items.mapM other = .ok (values.map change) := by
  induction items generalizing values with
  | nil =>
    cases h
    rfl
  | cons a items ih =>
    rw [List.mapM_cons] at h
    obtain ⟨b, first, h⟩ := bind_eq_ok h
    obtain ⟨others, rest, h⟩ := bind_eq_ok h
    cases h
    rw [List.mapM_cons, each a b first, ih rest]
    rfl

theorem mapM_of_error {α β ε : Type} (step : α → Except ε β) (front : List α) (a : α)
    (back : List α) (succeeds : ∀ c ∈ front, ∃ b, step c = .ok b) {fault : ε}
    (fails : step a = .error fault) : (front ++ a :: back).mapM step = .error fault := by
  induction front with
  | nil => rw [List.nil_append, List.mapM_cons, fails]; rfl
  | cons c front ih =>
    obtain ⟨b, first⟩ := succeeds c List.mem_cons_self
    have rest := ih fun d hd => succeeds d (List.mem_cons_of_mem c hd)
    rw [List.cons_append, List.mapM_cons, first, rest]
    rfl

/-- A fold that fails does so at one of its items, after all items before it. -/
theorem foldlM_eq_error {α σ ε : Type} {step : σ → α → Except ε σ} {items : List α} {start : σ}
    {fault : ε} (h : items.foldlM step start = .error fault) :
    ∃ front a back reached, items = front ++ a :: back ∧
      front.foldlM step start = .ok reached ∧ step reached a = .error fault := by
  induction items generalizing start with
  | nil => cases h
  | cons a items ih =>
    rw [List.foldlM_cons] at h
    cases first : step start a with
    | error other =>
      rw [first] at h
      cases h
      exact ⟨[], a, items, start, rfl, rfl, first⟩
    | ok next =>
      rw [first] at h
      obtain ⟨front, b, back, reached, rfl, before, failed⟩ := ih h
      refine ⟨a :: front, b, back, reached, rfl, ?_, failed⟩
      rw [List.foldlM_cons, first]
      exact before

namespace Outcome

variable {σ α β : Type}

theorem result_andThen_of_ok {first : Outcome σ α} {value : α} (h : first.result = .ok value)
    (next : σ → α → Outcome σ β) :
    (first.andThen next).result = (next first.state value).result := by
  simp only [andThen, h]

theorem state_andThen_of_ok {first : Outcome σ α} {value : α} (h : first.result = .ok value)
    (next : σ → α → Outcome σ β) :
    (first.andThen next).state = (next first.state value).state := by
  simp only [andThen, h]

theorem log_andThen_of_ok {first : Outcome σ α} {value : α} (h : first.result = .ok value)
    (next : σ → α → Outcome σ β) :
    (first.andThen next).log = first.log ++ (next first.state value).log := by
  simp only [andThen, h]

/-- What follows a step sees its state and its result, and not what it logged. -/
theorem andThen_congr {first other : Outcome σ α} (result : first.result = other.result)
    (state : first.state = other.state) (next : σ → α → Outcome σ β) :
    (first.andThen next).result = (other.andThen next).result ∧
      (first.andThen next).state = (other.andThen next).state := by
  simp only [andThen, result, state]
  cases other.result with
  | error fault => exact ⟨rfl, rfl⟩
  | ok value => exact ⟨rfl, rfl⟩

/-- Two steps end where the first ends, or where the second ends from there. -/
theorem state_andThen_cases (first : Outcome σ α) (next : σ → α → Outcome σ β) :
    (first.andThen next).state = first.state ∨
      ∃ value, (first.andThen next).state = (next first.state value).state := by
  cases h : first.result with
  | error fault => exact Or.inl (by simp only [andThen, h])
  | ok value => exact Or.inr ⟨value, state_andThen_of_ok h next⟩

theorem onEach_of_ok (step : σ → Outcome σ Unit) (items : List σ)
    (succeeds : ∀ s ∈ items, (step s).result = .ok ()) :
    (onEach step items).result = .ok () ∧
      (onEach step items).state = items.map fun s => (step s).state := by
  induction items with
  | nil => exact ⟨rfl, rfl⟩
  | cons s items ih =>
    obtain ⟨result, state⟩ := ih fun t ht => succeeds t (List.mem_cons_of_mem s ht)
    have first := succeeds s List.mem_cons_self
    simp only [onEach, first, List.map_cons, state]
    exact ⟨result, trivial⟩

/-- The first item whose step fails decides the result, whatever comes after it. -/
theorem onEach_of_error (step : σ → Outcome σ Unit) (front : List σ) (s : σ) (back : List σ)
    (succeeds : ∀ t ∈ front, (step t).result = .ok ()) {fault : Fault}
    (fails : (step s).result = .error fault) :
    (onEach step (front ++ s :: back)).result = .error fault := by
  induction front with
  | nil => simp only [List.nil_append, onEach, fails]
  | cons t front ih =>
    have first := succeeds t List.mem_cons_self
    simp only [List.cons_append, onEach, first]
    exact ih fun t ht => succeeds t (List.mem_cons_of_mem _ ht)

/-- What steps in a row come to: all of them succeed, or the first that fails is the last that
is taken. -/
theorem onEach_cases (step : σ → Outcome σ Unit) (items : List σ) :
    ((∀ s ∈ items, (step s).result = .ok ()) ∧ (onEach step items).result = .ok () ∧
      (onEach step items).log = items.flatMap fun s => (step s).log) ∨
    ∃ front s back fault, items = front ++ s :: back ∧
      (∀ t ∈ front, (step t).result = .ok ()) ∧ (step s).result = .error fault ∧
      (onEach step items).result = .error fault ∧
      (onEach step items).log = front.flatMap (fun t => (step t).log) ++ (step s).log := by
  induction items with
  | nil => exact Or.inl ⟨List.forall_mem_nil _, rfl, rfl⟩
  | cons s items ih =>
    cases first : (step s).result with
    | error fault =>
      refine Or.inr ⟨[], s, items, fault, rfl, List.forall_mem_nil _, first, ?_, ?_⟩
      · simp only [onEach, first]
      · simp only [onEach, first, List.flatMap_nil, List.nil_append]
    | ok value =>
      simp only [onEach, first]
      rcases ih with ⟨all, result, log⟩ | ⟨front, t, back, fault, rfl, before, failed, result, log⟩
      · refine Or.inl ⟨List.forall_mem_cons.mpr ⟨first, all⟩, result, ?_⟩
        rw [log, List.flatMap_cons]
      · refine Or.inr ⟨s :: front, t, back, fault, rfl, List.forall_mem_cons.mpr ⟨first, before⟩,
          failed, result, ?_⟩
        rw [log, List.flatMap_cons, List.append_assoc]

theorem onEach_append_of_ok {step : σ → Outcome σ Unit} {front : List σ}
    (succeeds : (onEach step front).result = .ok ()) (back : List σ) :
    (onEach step (front ++ back)).result = (onEach step back).result ∧
      (onEach step (front ++ back)).log = (onEach step front).log ++ (onEach step back).log := by
  induction front with
  | nil => exact ⟨rfl, rfl⟩
  | cons s front ih =>
    cases first : (step s).result with
    | error fault =>
      simp only [onEach, first] at succeeds
      cases succeeds
    | ok value =>
      simp only [onEach, first] at succeeds
      obtain ⟨result, log⟩ := ih succeeds
      simp only [List.cons_append, onEach, first, log, List.append_assoc]
      exact ⟨result, trivial⟩

theorem onEach_append_of_error {step : σ → Outcome σ Unit} {front : List σ} {fault : Fault}
    (fails : (onEach step front).result = .error fault) (back : List σ) :
    (onEach step (front ++ back)).result = .error fault ∧
      (onEach step (front ++ back)).log = (onEach step front).log := by
  induction front with
  | nil => cases fails
  | cons s front ih =>
    cases first : (step s).result with
    | error other =>
      simp only [onEach, first] at fails
      simp only [List.cons_append, onEach, first]
      exact ⟨fails, trivial⟩
    | ok value =>
      simp only [onEach, first] at fails
      obtain ⟨result, log⟩ := ih fails
      simp only [List.cons_append, onEach, first, log]
      exact ⟨result, trivial⟩

theorem length_onEach (step : σ → Outcome σ Unit) (items : List σ) :
    (onEach step items).state.length = items.length := by
  induction items with
  | nil => rfl
  | cons s items ih =>
    cases first : (step s).result with
    | error fault => simp only [onEach, first, List.length_cons]
    | ok value => simp only [onEach, first, List.length_cons, ih]

/-- A change that every step keeps is kept by the steps in a row. -/
theorem onEach_map (step : σ → Outcome σ Unit) (change : σ → σ)
    (kept : ∀ s, (step (change s)).result = (step s).result ∧
      (step (change s)).state = change (step s).state) (items : List σ) :
    (onEach step (items.map change)).result = (onEach step items).result ∧
      (onEach step (items.map change)).state = (onEach step items).state.map change := by
  induction items with
  | nil => exact ⟨rfl, rfl⟩
  | cons s items ih =>
    obtain ⟨result, state⟩ := kept s
    simp only [List.map_cons, onEach, result, state]
    cases (step s).result with
    | error fault => exact ⟨rfl, rfl⟩
    | ok value => exact ⟨ih.1, congrArg _ ih.2⟩

end Outcome

end RpcScaffold
