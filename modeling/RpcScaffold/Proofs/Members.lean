import RpcScaffold.Draft.Basic
import RpcScaffold.Proofs.Binding

/-!
# Members of a server base

When the methods of a service can be put into one class: no member may be one that every
server base has, and methods of different procedures may not share one. The check of a
draft refuses exactly the other cases. Methods of one procedure name are not told apart,
so a procedure that is declared twice is no clash.
-/
namespace RpcScaffold

namespace Method

/-- Some member of the methods would be defined twice in a server base. -/
def Clash (methods : List Method) : Prop :=
  (∃ m ∈ methods, ∃ name ∈ m.members,
    name = Vocabulary.serviceNameProperty ∨ name = Vocabulary.addMethod) ∨
  (∃ m ∈ methods, ∃ n ∈ methods, m.rpc.name ≠ n.rpc.name ∧ ∃ name ∈ m.members, name ∈ n.members)

instance (methods : List Method) : Decidable (Clash methods) :=
  inferInstanceAs (Decidable ((∃ m ∈ methods, ∃ name ∈ m.members, _) ∨ (∃ m ∈ methods, _)))

/-- The members of a method, each with the name of the procedure that owns it. -/
def memberClaims (m : Method) : List (String × String) :=
  m.members.map fun name => (name, m.rpc.name)

end Method

namespace Draft

open Bindings

theorem mem_inheritedMembers {p : String × MemberOwner} (h : p ∈ inheritedMembers) :
    p.1 = Vocabulary.serviceNameProperty ∨ p.1 = Vocabulary.addMethod := by
  simp only [inheritedMembers, List.mem_cons, List.not_mem_nil, or_false] at h
  rcases h with rfl | rfl
  · exact Or.inl rfl
  · exact Or.inr rfl

theorem inheritedMembers_functional : Functional inheritedMembers := by
  intro p hp q hq names
  simp only [inheritedMembers, List.mem_cons, List.not_mem_nil, or_false] at hp hq
  rcases hp with rfl | rfl <;> rcases hq with rfl | rfl
  · rfl
  · exact absurd names (by decide)
  · exact absurd names (by decide)
  · rfl

/-- All claims on members that a list of methods makes. -/
def ownedMembers (methods : List Method) : List (String × MemberOwner) :=
  (methods.flatMap Method.memberClaims).map fun c => (c.1, .rpc c.2)

theorem mem_ownedMembers {methods : List Method} {p : String × MemberOwner} :
    p ∈ ownedMembers methods ↔ ∃ m ∈ methods, p.1 ∈ m.members ∧ p.2 = .rpc m.rpc.name := by
  simp only [ownedMembers, Method.memberClaims, List.mem_map, List.mem_flatMap]
  constructor
  · rintro ⟨c, ⟨m, hm, name, hname, rfl⟩, rfl⟩
    exact ⟨m, hm, hname, rfl⟩
  · rintro ⟨m, hm, hname, howner⟩
    exact ⟨(p.1, m.rpc.name), ⟨m, hm, p.1, hname, rfl⟩, by rw [← howner]⟩

/-- Checking methods one by one claims their members one by one. -/
theorem claimMethods_eq (serverClass : String) (methods : List Method) :
    claimMethods serverClass methods =
      (methods.flatMap Method.memberClaims).foldlM
        (fun bound c => claimMember serverClass c.2 bound c.1) inheritedMembers := by
  simp only [foldlM_flatMap, Method.memberClaims, List.foldlM_map]
  rfl

theorem claimMember_ok_iff (serverClass rpc member : String) (bound after : Bindings MemberOwner) :
    claimMember serverClass rpc bound member = .ok after ↔
      bound.claim member (.rpc rpc) = .ok after := by
  rw [claimMember, mapError_eq_ok_iff]

theorem functional_members_iff (methods : List Method) :
    Functional (inheritedMembers ++ ownedMembers methods) ↔ ¬ Method.Clash methods := by
  constructor
  · rintro functional (⟨m, hm, name, hname, inherited⟩ | ⟨m, hm, n, hn, different, name, hmn, hnn⟩)
    · have claimed : (name, .rpc m.rpc.name) ∈ inheritedMembers ++ ownedMembers methods :=
        List.mem_append_right _ (mem_ownedMembers.mpr ⟨m, hm, hname, rfl⟩)
      rcases inherited with rfl | rfl
      · have first : (Vocabulary.serviceNameProperty, .serviceName) ∈ inheritedMembers := by
          simp [inheritedMembers]
        cases functional _ (List.mem_append_left _ first) _ claimed rfl
      · have second : (Vocabulary.addMethod, .serviceBase) ∈ inheritedMembers := by
          simp [inheritedMembers]
        cases functional _ (List.mem_append_left _ second) _ claimed rfl
    · have owner := functional (name, .rpc m.rpc.name)
        (List.mem_append_right _ (mem_ownedMembers.mpr ⟨m, hm, hmn, rfl⟩))
        (name, .rpc n.rpc.name)
        (List.mem_append_right _ (mem_ownedMembers.mpr ⟨n, hn, hnn, rfl⟩)) rfl
      exact different (MemberOwner.rpc.inj owner)
  · intro noClash p hp q hq names
    rcases List.mem_append.mp hp with hp | hp <;> rcases List.mem_append.mp hq with hq | hq
    · exact inheritedMembers_functional p hp q hq names
    · obtain ⟨n, hn, qname, _⟩ := mem_ownedMembers.mp hq
      have inherited := mem_inheritedMembers hp
      rw [names] at inherited
      exact False.elim (noClash (Or.inl ⟨n, hn, q.1, qname, inherited⟩))
    · obtain ⟨m, hm, pname, _⟩ := mem_ownedMembers.mp hp
      have inherited := mem_inheritedMembers hq
      rw [← names] at inherited
      exact False.elim (noClash (Or.inl ⟨m, hm, p.1, pname, inherited⟩))
    · obtain ⟨m, hm, pname, powner⟩ := mem_ownedMembers.mp hp
      obtain ⟨n, hn, qname, qowner⟩ := mem_ownedMembers.mp hq
      by_cases same : m.rpc.name = n.rpc.name
      · rw [powner, qowner, same]
      · exact False.elim (noClash (Or.inr ⟨m, hm, n, hn, same, p.1, pname, names ▸ qname⟩))

theorem claimMethods_ok_iff (serverClass : String) (methods : List Method) :
    (∃ bound, claimMethods serverClass methods = .ok bound) ↔ ¬ Method.Clash methods := by
  have all := foldlM_claim_ok_iff
    (fun bound (c : String × String) => claimMember serverClass c.2 bound c.1)
    (fun c => (c.1, MemberOwner.rpc c.2)) (fun _ => True)
    (fun bound c after => by simp [claimMember_ok_iff])
    (methods.flatMap Method.memberClaims) inheritedMembers inheritedMembers_functional
  rw [claimMethods_eq, all, ← functional_members_iff]
  simp [ownedMembers]

/-- The only fault of the check is a member clash in the class that is being put together. -/
theorem claimMethods_error {serverClass : String} {methods : List Method} {fault : Fault}
    (h : claimMethods serverClass methods = .error fault) :
    ∃ member first rpc, fault = .memberClash member serverClass first rpc := by
  rw [claimMethods_eq] at h
  obtain ⟨bound, c, _, _, failed⟩ := error_of_foldlM_claim
    (fun c => (c.1, MemberOwner.rpc c.2))
    (fun bound c after => (claimMember_ok_iff serverClass c.2 c.1 bound after).mp) h
  rw [claimMember] at failed
  cases granted : bound.claim c.1 (.rpc c.2) with
  | error holder =>
    rw [granted] at failed
    cases failed
    exact ⟨_, _, _, rfl⟩
  | ok after =>
    rw [granted] at failed
    cases failed

end Draft

end RpcScaffold
