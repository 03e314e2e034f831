import RpcScaffold.Proofs.Members
import RpcScaffold.Proofs.Registration
import RpcScaffold.Proofs.Steps

/-!
# What resolving a draft finds

The types that a service mentions are taken in order of their first mention: known ones
become dependencies of its draft, the others are remembered with the place of their first
mention. Told here is what a draft has after any list of mentions, what one mention more
adds to it, and what it is once it is resolved. How far the look-ups of a draft come is
not told here.
-/
namespace RpcScaffold

/-- The types that a procedure mentions, in order, each with the place of the mention. -/
def Rpc.mentions (r : Rpc) : List (String × String) :=
  [(r.request, r.requestPlace), (r.response, r.responsePlace)]

def Service.mentions (s : Service) : List (String × String) := s.rpcs.flatMap Rpc.mentions

/-- The first mention of every name. -/
def firstMentions : List (String × String) → List (String × String)
  | [] => []
  | x :: xs => x :: (firstMentions xs).filter (·.1 ≠ x.1)

theorem firstMentions_append (xs ys : List (String × String)) :
    firstMentions (xs ++ ys) =
      firstMentions xs ++ (firstMentions ys).filter (·.1 ∉ xs.map Prod.fst) := by
  induction xs with
  | nil => simp [firstMentions]
  | cons x xs ih =>
    simp only [List.cons_append, firstMentions, ih, List.filter_append, List.filter_filter,
      List.map_cons, List.mem_cons, not_or, Bool.decide_and]

theorem firstMentions_append_singleton (xs : List (String × String)) (y : String × String) :
    firstMentions (xs ++ [y]) = firstMentions xs ++ if y.1 ∈ xs.map Prod.fst then [] else [y] := by
  rw [firstMentions_append]
  by_cases mentioned : y.1 ∈ xs.map Prod.fst
  · simp [firstMentions, mentioned]
  · simp [firstMentions, mentioned]

theorem mem_firstMentions_names (xs : List (String × String)) (name : String) :
    name ∈ (firstMentions xs).map Prod.fst ↔ name ∈ xs.map Prod.fst := by
  induction xs with
  | nil => rfl
  | cons x xs ih =>
    rw [firstMentions, List.map_cons, List.map_cons, List.mem_cons, List.mem_cons, ← ih]
    by_cases same : name = x.1
    · simp [same]
    · simp [same]

/-- Mentions that come again in the same order are no first mentions. -/
theorem firstMentions_append_of_prefix {xs ys : List (String × String)} (h : xs <+: ys) :
    firstMentions (xs ++ ys) = firstMentions ys := by
  obtain ⟨rest, rfl⟩ := h
  have again : (firstMentions xs).filter (·.1 ∉ xs.map Prod.fst) = [] := by
    rw [List.filter_eq_nil_iff]
    intro x hx
    have mentioned := (mem_firstMentions_names xs x.1).mp (List.mem_map_of_mem hx)
    simpa using mentioned
  rw [firstMentions_append, firstMentions_append, List.filter_append, again, List.nil_append,
    List.filter_filter]
  simp only [Bool.and_self]

theorem mem_of_mem_firstMentions {mentions : List (String × String)} {x : String × String}
    (h : x ∈ firstMentions mentions) : x ∈ mentions := by
  induction mentions with
  | nil => exact h
  | cons y ys ih =>
    rcases List.mem_cons.mp h with rfl | later
    · exact List.mem_cons_self
    · exact List.mem_cons_of_mem y (ih (List.mem_of_mem_filter later))

theorem lookup_filter_key (keep : String → Bool) (xs : List (String × String)) (name : String) :
    (xs.filter fun x => keep x.1).lookup name = if keep name then xs.lookup name else none := by
  induction xs with
  | nil => simp
  | cons x xs ih =>
    obtain ⟨key, place⟩ := x
    by_cases same : name = key
    · subst same
      by_cases kept : keep name
      · simp [kept]
      · simp [kept, ih]
    · have apart : (name == key) = false := by simpa using same
      by_cases kept : keep key
      · simp [kept, List.lookup_cons, apart, ih]
      · simp [kept, List.lookup_cons, apart, ih]

theorem lookup_firstMentions (xs : List (String × String)) (name : String) :
    (firstMentions xs).lookup name = xs.lookup name := by
  induction xs with
  | nil => rfl
  | cons x xs ih =>
    obtain ⟨key, place⟩ := x
    have rest := lookup_filter_key (fun other => other ≠ key) (firstMentions xs) name
    rw [firstMentions, List.lookup_cons, List.lookup_cons, rest, ih]
    by_cases same : name = key
    · simp [same]
    · simp [same]

namespace Catalog

def Settled (c : Catalog) : Prop := ∀ e ∈ c.entries, e.settled = true

theorem settleAll_settled (c : Catalog) : c.settleAll.Settled := by
  intro e he
  obtain ⟨first, _, rfl⟩ := List.mem_map.mp he
  rfl

/-- The entries of the known types among those mentioned, by first mention. -/
def known (c : Catalog) (mentions : List (String × String)) : List Entry :=
  (firstMentions mentions).filterMap fun x => c.find? x.1

/-- The first mentions of the types that are not known. -/
def missing (c : Catalog) (mentions : List (String × String)) : List (String × String) :=
  (firstMentions mentions).filter fun x => (c.find? x.1).isNone

theorem mem_known (c : Catalog) (mentions : List (String × String)) (e : Entry) :
    e ∈ c.known mentions ↔ e.name ∈ mentions.map Prod.fst ∧ c.find? e.name = some e := by
  rw [known, List.mem_filterMap, ← mem_firstMentions_names]
  constructor
  · rintro ⟨x, hx, found⟩
    have named := (mem_of_find? found).2
    rw [named]
    exact ⟨List.mem_map_of_mem hx, found⟩
  · rintro ⟨mentioned, found⟩
    obtain ⟨x, hx, named⟩ := List.mem_map.mp mentioned
    exact ⟨x, hx, by rw [named]; exact found⟩

theorem find?_known (c : Catalog) (mentions : List (String × String)) (name : String) :
    (c.known mentions).find? (·.name = name) =
      if name ∈ mentions.map Prod.fst then c.find? name else none := by
  cases found : (c.known mentions).find? (·.name = name) with
  | some e =>
    have named : e.name = name := by simpa using List.find?_some found
    obtain ⟨mentioned, known⟩ := (mem_known c mentions e).mp (List.mem_of_find?_eq_some found)
    rw [named] at mentioned known
    rw [if_pos mentioned, known]
  | none =>
    have absent : ∀ e ∈ c.known mentions, e.name ≠ name := by
      simpa using List.find?_eq_none.mp found
    by_cases mentioned : name ∈ mentions.map Prod.fst
    · rw [if_pos mentioned]
      cases inCatalog : c.find? name with
      | none => rfl
      | some e =>
        have named := (mem_of_find? inCatalog).2
        subst named
        exact False.elim (absent e ((mem_known c mentions e).mpr ⟨mentioned, inCatalog⟩) rfl)
    · rw [if_neg mentioned]

theorem lookup_missing (c : Catalog) (mentions : List (String × String)) (name : String) :
    (c.missing mentions).lookup name =
      if (c.find? name).isNone then mentions.lookup name else none := by
  rw [missing, lookup_filter_key (fun other => (c.find? other).isNone), lookup_firstMentions]

theorem known_append_singleton (c : Catalog) (mentions : List (String × String))
    (y : String × String) :
    c.known (mentions ++ [y]) = c.known mentions ++
      if y.1 ∈ mentions.map Prod.fst then [] else (c.find? y.1).toList := by
  rw [known, firstMentions_append_singleton, List.filterMap_append, ← known]
  split
  · rfl
  · cases found : c.find? y.1 <;> simp [found]

theorem missing_append_singleton (c : Catalog) (mentions : List (String × String))
    (y : String × String) :
    c.missing (mentions ++ [y]) = c.missing mentions ++
      if y.1 ∈ mentions.map Prod.fst then [] else [y].filter fun x => (c.find? x.1).isNone := by
  rw [missing, firstMentions_append_singleton, List.filter_append, ← missing]
  split <;> rfl

/-- Two catalogs have the same entries under the names of some mentions. -/
def AgreeOn (c other : Catalog) (mentions : List (String × String)) : Prop :=
  ∀ x ∈ mentions, c.find? x.1 = other.find? x.1

theorem AgreeOn.known {c other : Catalog} {mentions : List (String × String)}
    (agree : c.AgreeOn other mentions) : c.known mentions = other.known mentions :=
  List.filterMap_congr fun x hx => agree x (mem_of_mem_firstMentions hx)

theorem AgreeOn.missing {c other : Catalog} {mentions : List (String × String)}
    (agree : c.AgreeOn other mentions) : c.missing mentions = other.missing mentions :=
  List.filter_congr fun x hx => by simp only [agree x (mem_of_mem_firstMentions hx)]

end Catalog

namespace Draft

/-- The draft with what a catalog says about the types mentioned so far. -/
def found (d : Draft) (c : Catalog) (mentions : List (String × String)) : Draft :=
  { d with dependencies := c.known mentions, unknown := c.missing mentions }

theorem dependency?_found (d : Draft) (c : Catalog) (mentions : List (String × String))
    (name : String) :
    (d.found c mentions).dependency? name =
      if name ∈ mentions.map Prod.fst then c.find? name else none :=
  c.find?_known mentions name

theorem found_append_of_mem (d : Draft) (c : Catalog) {mentions : List (String × String)}
    {y : String × String} (mentioned : y.1 ∈ mentions.map Prod.fst) :
    d.found c (mentions ++ [y]) = d.found c mentions := by
  rw [found, c.known_append_singleton, c.missing_append_singleton, if_pos mentioned,
    if_pos mentioned, List.append_nil, List.append_nil, ← found]

theorem found_append_known (d : Draft) (c : Catalog) {mentions : List (String × String)}
    {y : String × String} {e : Entry} (fresh : y.1 ∉ mentions.map Prod.fst)
    (known : c.find? y.1 = some e) :
    d.found c (mentions ++ [y]) =
      { d.found c mentions with dependencies := (d.found c mentions).dependencies ++ [e] } := by
  rw [found, c.known_append_singleton, c.missing_append_singleton, if_neg fresh, if_neg fresh]
  simp [found, known]

theorem found_append_missing (d : Draft) (c : Catalog) {mentions : List (String × String)}
    {y : String × String} (fresh : y.1 ∉ mentions.map Prod.fst) (missing : c.find? y.1 = none) :
    d.found c (mentions ++ [y]) =
      { d.found c mentions with unknown := (d.found c mentions).unknown ++ [y] } := by
  rw [found, c.known_append_singleton, c.missing_append_singleton, if_neg fresh, if_neg fresh]
  simp [found, missing]

/-- An unknown name is remembered at its first mention only. -/
theorem noteUnknown_found (d : Draft) (c : Catalog) (mentions : List (String × String))
    (y : String × String) (missing : c.find? y.1 = none) :
    (d.found c mentions).noteUnknown y.1 y.2 = d.found c (mentions ++ [y]) := by
  have noted : (d.found c mentions).unknown.lookup y.1 = mentions.lookup y.1 := by
    have all := c.lookup_missing mentions y.1
    rw [missing] at all
    exact all
  rw [noteUnknown, noted]
  by_cases mentioned : y.1 ∈ mentions.map Prod.fst
  · rw [found_append_of_mem d c mentioned]
    have place : (mentions.lookup y.1).isSome := by
      rw [List.lookup_isSome_iff]
      obtain ⟨x, hx, same⟩ := List.mem_map.mp mentioned
      exact ⟨x, hx, by simp [same]⟩
    obtain ⟨first, place⟩ := Option.isSome_iff_exists.mp place
    rw [place]
  · rw [found_append_missing d c mentioned missing]
    have place : mentions.lookup y.1 = none := by
      rw [List.lookup_eq_none_iff]
      intro x hx
      have apart : y.1 ≠ x.1 := fun same => mentioned (same ▸ List.mem_map_of_mem hx)
      simpa using apart
    rw [place]

/-- One more mention, of a type that is missing or settled: nothing fails, and the draft has
what the catalog says about the longer list. -/
theorem require_found {c : Catalog} {d : Draft} (phase : d.phase = .constructed)
    (mentions : List (String × String)) (y : String × String)
    (settled : ∀ e, c.find? y.1 = some e → e.settled = true) :
    ((d.found c mentions).require c y.1 y.2).result = .ok () ∧
      ((d.found c mentions).require c y.1 y.2).state = d.found c (mentions ++ [y]) := by
  have permitted : (d.found c mentions).permits .require = true := by
    simp [permits, found, phase, Operation.allowed]
  have dependency := dependency?_found d c mentions y.1
  rw [require, if_pos permitted]
  cases inCatalog : c.find? y.1 with
  | none =>
    rw [inCatalog, ite_self] at dependency
    simp only [dependency]
    exact ⟨rfl, noteUnknown_found d c mentions y inCatalog⟩
  | some e =>
    rw [inCatalog] at dependency
    by_cases mentioned : y.1 ∈ mentions.map Prod.fst
    · rw [if_pos mentioned] at dependency
      rw [dependency, found_append_of_mem d c mentioned]
      exact ⟨rfl, rfl⟩
    · have checked : e.check = .ok () := by
        rw [Entry.check, if_pos (settled e inCatalog)]
      rw [if_neg mentioned] at dependency
      simp [dependency, checked, found_append_known d c mentioned inCatalog]

/-- The methods that a draft gets when it is resolved. -/
def declaredMethods (d : Draft) : List Method := d.service.rpcs.map d.method

/-- The draft of a service after it has been resolved against a catalog. -/
def resolved (s : Service) (origin : Origin) (c : Catalog) : Draft :=
  { (ofService s origin).found c s.mentions with
    methods := (ofService s origin).declaredMethods, phase := .resolved }

theorem adoptMethods_of_ok {d : Draft} {bound : Bindings MemberOwner}
    (granted : claimMethods d.names.serverClass d.declaredMethods = .ok bound) :
    d.adoptMethods =
      ⟨{ d with methods := d.declaredMethods, phase := .resolved }, d.unknownEvents, .ok ()⟩ := by
  rw [declaredMethods] at granted
  simp only [adoptMethods, granted, declaredMethods]

theorem adoptMethods_of_error {d : Draft} {fault : Fault}
    (refused : claimMethods d.names.serverClass d.declaredMethods = .error fault) :
    d.adoptMethods = .fail d fault := by
  rw [declaredMethods] at refused
  simp only [adoptMethods, refused]

end Draft

end RpcScaffold
