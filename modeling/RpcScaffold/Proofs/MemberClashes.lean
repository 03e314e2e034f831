import RpcScaffold.Proofs.Lookups

/-!
# The first clash of members

Resolving a draft goes through the members of its methods in order, the handler of a method
before its adapter, and every member belongs to whatever had it first: the parts that all
server bases share, or else a procedure. A member that something else has already ends the
check. The fault names this member and its first owner, so it can be told from the methods
alone, and a draft that fails for it can be resolved again.

The draft may have looked up any types before. Only types that are not settled are left out
here: looking one up fails before the check begins.
-/
namespace RpcScaffold

namespace Draft

open Bindings

/-- The member is the first, in the order of the methods, that something other than its
procedure had before, and `first` is what had it first. -/
def FirstClash (methods : List Method) (member : String) (first : MemberOwner) (rpc : String) :
    Prop :=
  ∃ before after, ownedMembers methods = before ++ (member, .rpc rpc) :: after ∧
    holder? (inheritedMembers ++ before) member = some first ∧ first ≠ .rpc rpc ∧
    ∀ early claim late, before = early ++ claim :: late →
      ¬ Contested (inheritedMembers ++ early) claim

theorem claimMethods_firstClash {serverClass : String} {methods : List Method} {fault : Fault}
    (h : claimMethods serverClass methods = .error fault) :
    ∃ member first rpc, fault = .memberClash member serverClass first rpc ∧
      FirstClash methods member first rpc := by
  rw [claimMethods_eq] at h
  obtain ⟨before, c, after, reached, split, failed, holders, passed⟩ := first_of_foldlM_claim
    (fun c => (c.1, MemberOwner.rpc c.2))
    (fun bound c after => (claimMember_ok_iff serverClass c.2 c.1 bound after).mp) h
  rw [claimMember] at failed
  cases refused : reached.claim c.1 (.rpc c.2) with
  | ok bound =>
    rw [refused] at failed
    cases failed
  | error first =>
    rw [refused] at failed
    cases failed
    obtain ⟨held, other⟩ := (claim_eq_error_iff reached c.1 (.rpc c.2) first).mp refused
    rw [holders] at held
    have inOrder : ownedMembers methods = before.map (fun c => (c.1, .rpc c.2)) ++
        (c.1, .rpc c.2) :: after.map fun c => (c.1, .rpc c.2) := by
      rw [ownedMembers, split, List.map_append, List.map_cons]
    refine ⟨c.1, first, c.2, rfl, _, _, inOrder, held, other, ?_⟩
    intro early claim late h
    obtain ⟨front, rest, rfl, rfl, tail⟩ := List.map_eq_append_iff.mp h
    obtain ⟨d, back, rfl, rfl, _⟩ := List.map_eq_cons_iff.mp tail
    exact passed front d back rfl

/-- Against a settled catalog a draft under construction gets as far as its methods. -/
theorem resolve_of_settled {d : Draft} {c : Catalog} (phase : d.phase = .constructed)
    (settled : c.Settled) :
    ∃ found, SameBut d found ∧ (d.resolve c).state = found.adoptMethods.state ∧
      (d.resolve c).result = found.adoptMethods.result := by
  have ok := requireAll_of_settled settled phase d.service.mentions
  refine ⟨_, (requireAll_of_constructed c phase d.service.mentions).1, ?_, ?_⟩
  · rw [resolve_eq c phase, Outcome.state_andThen_of_ok ok]
  · rw [resolve_eq c phase, Outcome.result_andThen_of_ok ok]

/-- Only a draft whose methods do not clash can be resolved, and then it has these methods. -/
theorem resolve_eq_ok {d : Draft} {c : Catalog} (h : (d.resolve c).result = .ok ()) :
    ¬ Method.Clash d.declaredMethods ∧ ∃ found, SameBut d found ∧
      (d.resolve c).state = { found with methods := d.declaredMethods, phase := .resolved } := by
  have phase : d.phase = .constructed := by
    by_contra past
    rw [resolve_of_not_constructed c past] at h
    cases h
  rw [resolve_eq c phase] at h ⊢
  obtain ⟨⟨dependencies, unknown, same⟩, ok | ⟨name, failed⟩⟩ :=
    requireAll_of_constructed c phase d.service.mentions
  · rw [Outcome.result_andThen_of_ok ok, same] at h
    rw [Outcome.state_andThen_of_ok ok, same]
    cases checked : claimMethods d.names.serverClass d.declaredMethods with
    | error fault =>
      rw [adoptMethods_of_error (d := { d with dependencies, unknown }) checked] at h
      cases h
    | ok bound =>
      rw [adoptMethods_of_ok (d := { d with dependencies, unknown }) checked]
      exact ⟨(claimMethods_ok_iff _ _).mp ⟨bound, checked⟩, _, ⟨dependencies, unknown, rfl⟩, rfl⟩
  · simp [Outcome.andThen, failed] at h

/-- A draft under construction is refused for a clash exactly when its methods clash. The fault
is the first clash, nothing else stops the draft, and it stays under construction. -/
theorem resolve_memberClash_iff (d : Draft) (c : Catalog) (phase : d.phase = .constructed)
    (settled : c.Settled) :
    ((∃ member serverClass first rpc,
        (d.resolve c).result = .error (.memberClash member serverClass first rpc)) ↔
      Method.Clash d.declaredMethods) ∧
    ∀ fault, (d.resolve c).result = .error fault →
      (∃ member first rpc, fault = .memberClash member d.names.serverClass first rpc ∧
        FirstClash d.declaredMethods member first rpc) ∧
      (d.resolve c).state.phase = .constructed ∧ (d.resolve c).state.methods = d.methods := by
  obtain ⟨found, ⟨dependencies, unknown, rfl⟩, state, result⟩ := resolve_of_settled phase settled
  have clash := claimMethods_ok_iff d.names.serverClass d.declaredMethods
  rw [state, result]
  cases checked : claimMethods d.names.serverClass d.declaredMethods with
  | ok bound =>
    have adopted := adoptMethods_of_ok (d := { d with dependencies, unknown }) checked
    rw [adopted]
    refine ⟨?_, fun fault failed => by cases failed⟩
    constructor
    · rintro ⟨member, serverClass, first, rpc, failed⟩
      cases failed
    · intro clashes
      exact absurd clashes (clash.mp ⟨bound, checked⟩)
  | error fault =>
    have refused := adoptMethods_of_error (d := { d with dependencies, unknown }) checked
    obtain ⟨member, first, rpc, rfl, isFirst⟩ := claimMethods_firstClash checked
    rw [refused]
    refine ⟨?_, ?_⟩
    · constructor
      · intro _
        by_contra none
        obtain ⟨bound, granted⟩ := clash.mpr none
        rw [checked] at granted
        cases granted
      · intro _
        exact ⟨member, d.names.serverClass, first, rpc, rfl⟩
    · rintro _ ⟨⟩
      exact ⟨⟨member, first, rpc, rfl, isFirst⟩, phase, rfl⟩

/-- A service that has looked up a type before. The adapter of its first procedure is the
handler of its third, and its last procedure would clash as well. -/
def colliding : Draft where
  service :=
    { name := "Store", package := "demo"
      rpcs := [⟨"Get", "demo.Key", "demo.Value", {}⟩,
        ⟨"Put", "demo.Value", "demo.Key", ⟨true, false⟩⟩,
        ⟨"Get_pre", "demo.Key", "demo.Value", ⟨true, true⟩⟩,
        ⟨"Add_method", "demo.Key", "demo.Value", {}⟩] }
  origin := .ofFile "demo/store.proto" "demo"
  unknown := [("demo.Lost", "elsewhere")]

theorem resolve_memberClash_iff_colliding :
    let types : Catalog := ⟨[⟨"demo.Key", "Key", .ofFile "demo/key.proto" "demo", true⟩]⟩
    colliding.phase = .constructed ∧ types.Settled ∧ Method.Clash colliding.declaredMethods ∧
      (colliding.resolve types).result =
        .error (.memberClash "get_pre" "StoreServiceBase" (.rpc "Get") "Get_pre") ∧
      FirstClash colliding.declaredMethods "get_pre" (.rpc "Get") "Get_pre" ∧
      (colliding.resolve types).state.phase = .constructed := by
  intro types
  have settled : types.Settled := by simp [Catalog.Settled, types]
  have failed : (colliding.resolve types).result =
      .error (.memberClash "get_pre" "StoreServiceBase" (.rpc "Get") "Get_pre") := by
    decide +kernel
  obtain ⟨clash, told⟩ := resolve_memberClash_iff colliding types rfl settled
  obtain ⟨⟨member, first, rpc, same, isFirst⟩, phase, _⟩ := told _ failed
  cases same
  exact ⟨rfl, settled, clash.mp ⟨_, _, _, _, failed⟩, failed, isFirst, phase⟩

end Draft

end RpcScaffold
