import RpcScaffold.Proofs.Dispatch
import RpcScaffold.Proofs.MemberClashes
import RpcScaffold.Proofs.Phases

/-!
# The members of the generated classes

The names that the two classes of a service bind, and when they are all different. Only those
of the server base are checked when a service is resolved. For the client it has to be shown
that the same check is enough: handlers are told apart by it, and all other members of a
client start with an underscore, which no handler does when procedures start with a letter.

Procedures are assumed to have different names. One that is declared twice is no clash, and
its members would be bound twice.
-/
namespace RpcScaffold

/-- The name has a first character, and it is a letter of ASCII. -/
def Name.startsWithLetter (name : String) : Bool := name.toList.head?.any Char.isAlpha

theorem Text.lowerChar_of_isAlpha {c : Char} (h : c.isAlpha = true) :
    lowerChar c = [c.toLower] ∧ c.toLower.isAlpha = true := by
  have ascii : c.toNat < 128 := by
    change (decide ('A'.val ≤ c.val ∧ c.val ≤ 'Z'.val) ||
      (decide ('a'.val ≤ c.val) && decide (c.val ≤ 'z'.val))) = true at h
    simp only [Bool.or_eq_true, Bool.and_eq_true, decide_eq_true_eq,
      UInt32.le_iff_toNat_le] at h
    have value : c.toNat = c.val.toNat := rfl
    have upper : 'Z'.val.toNat = 90 := rfl
    have lower : 'z'.val.toNat = 122 := rfl
    omega
  have letters : ∀ n < 128, (Char.ofNat n).isAlpha = true →
      (Char.ofNat n).toLower.isAlpha = true := by
    decide +kernel
  have lower := letters c.toNat ascii
  rw [Char.ofNat_toNat] at lower
  exact ⟨lowerChar_of_ascii ascii, lower h⟩

namespace Name

theorem startsWithLetter_append {name : String} (h : startsWithLetter name = true)
    (ending : String) : startsWithLetter (name ++ ending) = true := by
  cases chars : name.toList with
  | nil => simp [startsWithLetter, chars] at h
  | cons c cs => simpa [startsWithLetter, chars] using h

theorem startsWithLetter_handler {rpc : String} (h : startsWithLetter rpc = true) :
    startsWithLetter (handler rpc) = true := by
  have first : startsWithLetter (Text.lowerFirst rpc) = true := by
    cases chars : rpc.toList with
    | nil => simp [startsWithLetter, chars] at h
    | cons c cs =>
      have letter : c.isAlpha = true := by simpa [startsWithLetter, chars] using h
      obtain ⟨lowered, lower⟩ := Text.lowerChar_of_isAlpha letter
      simp [startsWithLetter, Text.lowerFirst, chars, lowered, lower]
  rw [handler, avoidKeyword]
  split
  · exact startsWithLetter_append first "_"
  · exact first

theorem ne_of_startsWithLetter {a b : String} (ha : startsWithLetter a = true)
    (hb : startsWithLetter b = false) : a ≠ b := by
  rintro rfl
  rw [ha] at hb
  cases hb

end Name

namespace Service

def handlers (s : Service) : List String := s.rpcs.map fun r => Name.handler r.name

/-- The adapters of the procedures that have one. -/
def adapters (s : Service) : List String :=
  (s.rpcs.filter fun r => !r.streaming.client).map fun r =>
    Name.handler r.name ++ Vocabulary.adapterSuffix

def clientMembers (s : Service) : List String :=
  s.handlers.map (Vocabulary.descriptorStem ++ ·) ++ "_channel" :: "__init__" :: s.handlers

def serverMembers (s : Service) : List String :=
  Vocabulary.serviceNameProperty :: "__init__" :: (s.adapters ++ s.handlers)

end Service

namespace Transcript

/-- The names that the client class binds: its descriptors, the channel and the constructor,
without which no client can be read, and its stubs. -/
def ClientBinds (t : Transcript) (names : List String) : Prop :=
  ∃ stubs, List.Forall₂ (fun (s : Stub) name => Defines s.heading name) t.stubs stubs ∧
    names = t.descriptors.map Descriptor.name ++ "_channel" :: "__init__" :: stubs

/-- The names that the server base binds: the service name and the constructor, without which
no server base can be read, the adapters and the handlers. -/
def ServerBinds (t : Transcript) (names : List String) : Prop :=
  ∃ adapters handlers,
    List.Forall₂ (fun (a : Adapter) name => Defines a.heading name) t.adapters adapters ∧
    List.Forall₂ Defines t.handlers handlers ∧
    names = Vocabulary.serviceNameProperty :: "__init__" :: (adapters ++ handlers)

section
variable {n : ServiceNames} {ms : List TypedMethod} {s : Service}
  (rpcs : ms.map (·.method.rpc) = s.rpcs)
include rpcs

theorem handlers_of_rpcs : s.handlers = ms.map (·.method.handler) := by
  rw [Service.handlers, ← rpcs, List.map_map]
  rfl

theorem adapters_of_rpcs :
    s.adapters = (ms.filter (·.method.hasAdapter)).map (·.method.adapter) := by
  rw [Service.adapters, ← rpcs, List.filter_map, List.map_map]
  rfl

theorem clientBinds_of : (of n ms).ClientBinds s.clientMembers := by
  have handlers := handlers_of_rpcs rpcs
  refine ⟨s.handlers, ?_, ?_⟩
  · rw [handlers]
    change List.Forall₂ _ (ms.map Stub.of) _
    rw [List.forall₂_map_left_iff, List.forall₂_map_right_iff, List.forall₂_same]
    exact fun t _ => ⟨_, _, rfl⟩
  · have descriptors : (of n ms).descriptors.map Descriptor.name =
        s.handlers.map (Vocabulary.descriptorStem ++ ·) := by
      rw [handlers, List.map_map]
      exact List.map_map
    rw [descriptors]
    rfl

theorem serverBinds_of : (of n ms).ServerBinds s.serverMembers := by
  refine ⟨s.adapters, s.handlers, ?_, ?_, rfl⟩
  · rw [adapters_of_rpcs rpcs]
    change List.Forall₂ _ ((ms.filter (·.method.hasAdapter)).map Adapter.of) _
    rw [List.forall₂_map_left_iff, List.forall₂_map_right_iff, List.forall₂_same]
    exact fun t _ => defines_adapter t
  · rw [handlers_of_rpcs rpcs]
    change List.Forall₂ _ (ms.map handlerOf) _
    rw [List.forall₂_map_left_iff, List.forall₂_map_right_iff, List.forall₂_same]
    exact fun t _ => defines_handlerOf t

end

end Transcript

namespace Draft

section
variable {d : Draft} (noClash : ¬ Method.Clash d.declaredMethods)
include noClash

/-- A member belongs to one procedure, unless a procedure is declared twice. -/
theorem eq_of_shared_member (distinct : (d.service.rpcs.map Rpc.name).Nodup) {q r : Rpc}
    (hq : q ∈ d.service.rpcs) (hr : r ∈ d.service.rpcs) {name : String}
    (first : name ∈ (d.method q).members) (second : name ∈ (d.method r).members) : q = r := by
  by_contra different
  refine noClash (Or.inr ⟨d.method q, List.mem_map_of_mem hq, d.method r, List.mem_map_of_mem hr,
    ?_, name, first, second⟩)
  intro same
  exact different (List.inj_on_of_nodup_map distinct hq hr same)

theorem ne_inherited_of_member {r : Rpc} (hr : r ∈ d.service.rpcs) {name : String}
    (h : name ∈ (d.method r).members) :
    name ≠ Vocabulary.serviceNameProperty ∧ name ≠ Vocabulary.addMethod := by
  rw [← not_or]
  intro inherited
  exact noClash (Or.inl ⟨d.method r, List.mem_map_of_mem hr, name, h, inherited⟩)

end

theorem handler_mem_members (d : Draft) (r : Rpc) :
    Name.handler r.name ∈ (d.method r).members := by
  rw [Method.members]
  split <;> exact List.mem_cons_self

theorem adapter_mem_members (d : Draft) {r : Rpc} (single : (!r.streaming.client) = true) :
    Name.handler r.name ++ Vocabulary.adapterSuffix ∈ (d.method r).members := by
  have has : (d.method r).hasAdapter = true := single
  rw [Method.members, if_pos has]
  exact List.mem_cons_of_mem _ List.mem_cons_self

section
variable {d : Draft} (noClash : ¬ Method.Clash d.declaredMethods)
  (distinct : (d.service.rpcs.map Rpc.name).Nodup)
include noClash distinct

theorem handlers_nodup : d.service.handlers.Nodup := by
  refine distinct.of_map.map_on ?_
  intro q hq r hr same
  refine eq_of_shared_member noClash distinct hq hr (d.handler_mem_members q) ?_
  rw [same]
  exact d.handler_mem_members r

theorem adapters_nodup : d.service.adapters.Nodup := by
  refine (distinct.of_map.filter _).map_on ?_
  intro q hq r hr same
  obtain ⟨hq, single⟩ := List.mem_filter.mp hq
  obtain ⟨hr, other⟩ := List.mem_filter.mp hr
  refine eq_of_shared_member noClash distinct hq hr (d.adapter_mem_members single) ?_
  rw [same]
  exact d.adapter_mem_members other

theorem adapters_ne_handlers :
    ∀ a ∈ d.service.adapters, ∀ h ∈ d.service.handlers, a ≠ h := by
  rintro a ha h hh rfl
  obtain ⟨q, hq, rfl⟩ := List.mem_map.mp ha
  obtain ⟨r, hr, same⟩ := List.mem_map.mp hh
  obtain ⟨hq, single⟩ := List.mem_filter.mp hq
  have shared := d.handler_mem_members r
  rw [same] at shared
  obtain rfl := eq_of_shared_member noClash distinct hq hr (d.adapter_mem_members single) shared
  have lengths := congrArg (fun name : String => name.toList.length) same
  simp [Vocabulary.adapterSuffix] at lengths

variable (letters : ∀ r ∈ d.service.rpcs, Name.startsWithLetter r.name = true)
include letters

omit noClash distinct in
/-- Handlers and adapters start with a letter. -/
theorem startsWithLetter_of_mem :
    ∀ name ∈ d.service.adapters ++ d.service.handlers, Name.startsWithLetter name = true := by
  intro name member
  rcases List.mem_append.mp member with adapter | handler
  · obtain ⟨r, hr, rfl⟩ := List.mem_map.mp adapter
    have letter := Name.startsWithLetter_handler (letters r (List.mem_filter.mp hr).1)
    exact Name.startsWithLetter_append letter _
  · obtain ⟨r, hr, rfl⟩ := List.mem_map.mp handler
    exact Name.startsWithLetter_handler (letters r hr)

theorem clientMembers_nodup : d.service.clientMembers.Nodup := by
  have own := handlers_nodup noClash distinct
  have letter : ∀ h ∈ d.service.handlers, Name.startsWithLetter h = true := fun h member =>
    startsWithLetter_of_mem letters h (List.mem_append_right _ member)
  have channel : "_channel" ∉ d.service.handlers := fun member =>
    Name.ne_of_startsWithLetter (letter _ member) (by decide) rfl
  have constructor : "__init__" ∉ d.service.handlers := fun member =>
    Name.ne_of_startsWithLetter (letter _ member) (by decide) rfl
  rw [Service.clientMembers, List.nodup_append]
  refine ⟨own.map fun a b same => ?_, ?_, ?_⟩
  · simpa using same
  · simp [channel, constructor, own]
  · intro a descriptor b other
    obtain ⟨h, _, rfl⟩ := List.mem_map.mp descriptor
    have stem : ∀ second, (Vocabulary.descriptorStem ++ h).toList[1]? = some second →
        second = 'm' := by
      intro second found
      simpa [Vocabulary.descriptorStem, eq_comm] using found
    rcases List.mem_cons.mp other with rfl | other
    · intro same
      exact absurd (stem 'c' (by rw [same]; rfl)) (by decide)
    rcases List.mem_cons.mp other with rfl | other
    · intro same
      exact absurd (stem '_' (by rw [same]; rfl)) (by decide)
    · have underscore : Name.startsWithLetter (Vocabulary.descriptorStem ++ h) = false := by
        simp [Name.startsWithLetter, Vocabulary.descriptorStem]
      exact (Name.ne_of_startsWithLetter (letter b other) underscore).symm

theorem serverMembers_nodup :
    d.service.serverMembers.Nodup ∧ Vocabulary.addMethod ∉ d.service.serverMembers := by
  have own : (d.service.adapters ++ d.service.handlers).Nodup :=
    List.nodup_append.mpr ⟨adapters_nodup noClash distinct, handlers_nodup noClash distinct,
      adapters_ne_handlers noClash distinct⟩
  have constructor : "__init__" ∉ d.service.adapters ++ d.service.handlers := fun member =>
    Name.ne_of_startsWithLetter (startsWithLetter_of_mem letters _ member) (by decide) rfl
  have inherited : ∀ name ∈ d.service.adapters ++ d.service.handlers,
      name ≠ Vocabulary.serviceNameProperty ∧ name ≠ Vocabulary.addMethod := by
    intro name member
    rcases List.mem_append.mp member with adapter | handler
    · obtain ⟨r, hr, rfl⟩ := List.mem_map.mp adapter
      obtain ⟨hr, single⟩ := List.mem_filter.mp hr
      exact ne_inherited_of_member noClash hr (d.adapter_mem_members single)
    · obtain ⟨r, hr, rfl⟩ := List.mem_map.mp handler
      exact ne_inherited_of_member noClash hr (d.handler_mem_members r)
  rw [Service.serverMembers]
  constructor
  · refine List.nodup_cons.mpr ⟨?_, List.nodup_cons.mpr ⟨constructor, own⟩⟩
    intro member
    rcases List.mem_cons.mp member with same | member
    · exact absurd same (by decide)
    · exact (inherited _ member).1 rfl
  · intro member
    rcases List.mem_cons.mp member with same | member
    · exact absurd same (by decide)
    rcases List.mem_cons.mp member with same | member
    · exact absurd same (by decide)
    · exact (inherited _ member).2 rfl

end

end Draft

namespace Workbench

open Draft

/-- When a service has been resolved, and after any further work its code is written, the
classes in this code bind no name twice. The service has procedures of different names, each
of which starts with a letter. -/
theorem members_nodup_of_emits (b : Workbench) (resolved : Succeeds (b.act .resolve).2)
    (moves : List Move) (p : Page) (lines : List String)
    (emits : ((b.act .resolve).1.run moves).draft.Emits p lines)
    (distinct : (b.draft.service.rpcs.map Rpc.name).Nodup)
    (letters : ∀ r ∈ b.draft.service.rpcs, Name.startsWithLetter r.name = true) :
    ∃ t, Transcript.read? p lines = some t ∧
      t.ClientBinds b.draft.service.clientMembers ∧ b.draft.service.clientMembers.Nodup ∧
      t.ServerBinds b.draft.service.serverMembers ∧ b.draft.service.serverMembers.Nodup ∧
      Vocabulary.addMethod ∉ b.draft.service.serverMembers := by
  have ok : (b.draft.resolve b.catalog).result = .ok () := by
    obtain ⟨value, answer⟩ := resolved
    obtain ⟨_, ok, _⟩ := map_eq_ok answer
    exact ok
  obtain ⟨noClash, found, ⟨dependencies, unknown, rfl⟩, state⟩ := resolve_eq_ok ok
  have past : (b.act .resolve).1.draft.phase ≠ .constructed := by
    rw [act, state]
    exact Phase.noConfusion
  obtain ⟨_, later⟩ := run_frozen moves past
  have methods : ((b.act .resolve).1.run moves).draft.methods = b.draft.declaredMethods := by
    rw [later, act, state]
  obtain ⟨typed, mapped, read⟩ := emits.read
  have rpcs := rpcs_of_typed ((methods_of_typed mapped).trans methods)
  obtain ⟨server, inherited⟩ := serverMembers_nodup noClash distinct letters
  exact ⟨_, read, Transcript.clientBinds_of rpcs, clientMembers_nodup noClash distinct letters,
    Transcript.serverBinds_of rpcs, server, inherited⟩

/-- Among its procedures is one with the name of a keyword, and one with the name that the
adapter of another procedure would have, which streams its requests and so has none. -/
def gathering : Workbench where
  catalog := ⟨[⟨"demo.Ping", "Ping", .ofFile "demo/ping.proto" "demo", true⟩]⟩
  draft := .ofService
    { name := "Gather", package := "demo"
      rpcs := [⟨"Import", "demo.Ping", "demo.Ping", {}⟩,
        ⟨"Collect", "demo.Ping", "demo.Ping", ⟨true, false⟩⟩,
        ⟨"Collect_pre", "demo.Ping", "demo.Ping", ⟨false, true⟩⟩] }
    (.ofFile "demo/gather.proto" "demo")

theorem members_nodup_of_emits_gathering :
    ∃ lines t, Transcript.read? {} lines = some t ∧
      t.ServerBinds ["service_name", "__init__", "import__pre", "collect_pre_pre", "import_",
        "collect", "collect_pre"] ∧
      ["service_name", "__init__", "import__pre", "collect_pre_pre", "import_", "collect",
        "collect_pre"].Nodup := by
  obtain ⟨lines, emits⟩ :
      ∃ lines, ((gathering.act .resolve).1.run [.catalog .settleAll]).draft.Emits {} lines :=
    ⟨_, _, _, rfl, rfl⟩
  obtain ⟨t, read, -, -, server, distinct, -⟩ :=
    members_nodup_of_emits gathering ⟨_, rfl⟩ [.catalog .settleAll] {} lines emits (by decide)
      (by decide +kernel)
  have members : gathering.draft.service.serverMembers =
      ["service_name", "__init__", "import__pre", "collect_pre_pre", "import_", "collect",
        "collect_pre"] := by
    decide +kernel
  rw [members] at server distinct
  exact ⟨lines, t, read, server, distinct⟩

end Workbench

end RpcScaffold
