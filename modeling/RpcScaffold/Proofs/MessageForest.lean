import RpcScaffold.Proofs.Naming
import RpcScaffold.Proofs.Registration

/-!
# The messages of a file in pre-order

A message of a file has a place: its index at the top level or, inside another message, the place
of that message followed by its own index there. Outer messages come before inner ones, and
earlier ones with all inside them before later ones, when places are compared index by index.
The message types of a file are its messages in this order. Those at the top level are all kept;
from there on the way to a kept message leads through messages that are no map entries.

A file is added to a catalog as this list, up to the first name that is taken by the catalog or
by an earlier message of the list. Nothing is asked of the catalog, and nothing of the names of
messages either, except where a path is read off a name.
-/
namespace RpcScaffold

namespace Message

mutual

/-- A property of all messages, from that of the nested ones. -/
theorem inside_out {P : Message → Prop}
    (step : ∀ name entry nested, (∀ m ∈ nested, P m) → P (.mk name entry nested))
    (m : Message) : P m := by
  cases m with
  | mk name entry nested => exact step name entry nested (inside_out_nested step nested)

theorem inside_out_nested {P : Message → Prop}
    (step : ∀ name entry nested, (∀ m ∈ nested, P m) → P (.mk name entry nested))
    (ms : List Message) : ∀ m ∈ ms, P m := by
  cases ms with
  | nil => exact List.forall_mem_nil P
  | cons m ms =>
    exact List.forall_mem_cons.mpr ⟨inside_out step m, inside_out_nested step ms⟩

end

/-- A kept message at a place inside another, with the names on the way to it. -/
inductive Holds : Message → List Nat → List String → Prop where
  | self (m : Message) : Holds m [] [m.name]
  | inner {outer m : Message} {i : Nat} {place : List Nat} {trail : List String}
    (member : outer.nested[i]? = some m) (kept : m.mapEntry = false)
    (inside : m.Holds place trail) : Holds outer (i :: place) (outer.name :: trail)

end Message

/-- A kept message of a file at a place, with the names on the way to it. -/
inductive SchemaFile.Holds (f : SchemaFile) : List Nat → List String → Prop where
  | top {m : Message} {i : Nat} {place : List Nat} {trail : List String}
    (member : f.messages[i]? = some m) (inside : m.Holds place trail) : Holds f (i :: place) trail

/-- A message as it is met on a walk through a forest. -/
structure Visit where
  place : List Nat
  trail : List String
  deriving DecidableEq

namespace Visit

def under (i : Nat) (v : Visit) : Visit := ⟨i :: v.place, v.trail⟩

def within (name : String) (v : Visit) : Visit := ⟨v.place, name :: v.trail⟩

def Before (v w : Visit) : Prop := List.Lex (· < ·) v.place w.place

/-- The names that a message has in the given scopes, built along its trail. -/
def declaration (scope classScope : String) (v : Visit) : Declaration :=
  ⟨v.trail.foldl Name.qualify scope, v.trail.foldl Name.qualify classScope⟩

/-- Walks through trees side by side, numbered from `i` on. -/
def numbered (i : Nat) : List (List Visit) → List Visit
  | [] => []
  | walk :: walks => walk.map (under i) ++ numbered (i + 1) walks

theorem mem_numbered (i : Nat) (walks : List (List Visit)) (v : Visit) :
    v ∈ numbered i walks ↔ ∃ k walk w, walks[k]? = some walk ∧ w ∈ walk ∧ v = under (i + k) w := by
  induction walks generalizing i with
  | nil => simp [numbered]
  | cons first walks ih =>
    rw [numbered, List.mem_append, List.mem_map, ih]
    constructor
    · rintro (⟨w, hw, rfl⟩ | ⟨k, walk, w, found, hw, rfl⟩)
      · exact ⟨0, first, w, rfl, hw, rfl⟩
      · exact ⟨k + 1, walk, w, found, hw, by rw [Nat.add_right_comm, Nat.add_assoc]⟩
    · rintro ⟨k, walk, w, found, hw, rfl⟩
      cases k with
      | zero =>
        cases found
        exact Or.inl ⟨w, hw, rfl⟩
      | succ k => exact Or.inr ⟨k, walk, w, found, hw, by rw [Nat.add_right_comm, Nat.add_assoc]⟩

theorem numbered_ascending (i : Nat) (walks : List (List Visit))
    (each : ∀ walk ∈ walks, walk.Pairwise Before) : (numbered i walks).Pairwise Before := by
  induction walks generalizing i with
  | nil => exact List.Pairwise.nil
  | cons first walks ih =>
    obtain ⟨own, others⟩ := List.forall_mem_cons.mp each
    rw [numbered, List.pairwise_append, List.pairwise_map]
    refine ⟨own.imp fun before => .cons before, ih (i + 1) others, ?_⟩
    intro v hv w hw
    obtain ⟨_, _, rfl⟩ := List.mem_map.mp hv
    obtain ⟨k, _, _, _, _, rfl⟩ := (mem_numbered (i + 1) walks w).mp hw
    have later : i < i + 1 + k := by omega
    exact .rel later

theorem map_numbered (i : Nat) (walks : List (List Visit)) (scope classScope : String) :
    (numbered i walks).map (declaration scope classScope) =
      walks.flatMap fun walk => walk.map (declaration scope classScope) := by
  induction walks generalizing i with
  | nil => rfl
  | cons walk walks ih =>
    rw [numbered, List.map_append, ih, List.map_map, List.flatMap_cons]
    rfl

end Visit

mutual

/-- A message before what it holds; nested messages in order. -/
def Message.walk : Message → List Visit
  | .mk name _ nested =>
    ⟨[], [name]⟩ :: (Visit.numbered 0 (Message.nestedWalks nested)).map (Visit.within name)

def Message.nestedWalks : List Message → List (List Visit)
  | [] => []
  | m :: ms => (if m.mapEntry then [] else m.walk) :: Message.nestedWalks ms

end

namespace Message

theorem nestedWalks_eq (ms : List Message) :
    nestedWalks ms = ms.map fun m => if m.mapEntry then [] else m.walk := by
  induction ms with
  | nil => rfl
  | cons m ms ih => rw [nestedWalks, ih, List.map_cons]

theorem nestedDeclarations_eq (scope classScope : String) (ms : List Message) :
    nestedDeclarations scope classScope ms =
      ms.flatMap fun m => if m.mapEntry then [] else m.declarations scope classScope := by
  induction ms with
  | nil => rfl
  | cons m ms ih => rw [nestedDeclarations, ih, List.flatMap_cons]

/-- The walk finds the messages that a message holds. -/
theorem mem_walk (m : Message) : ∀ v, v ∈ m.walk ↔ m.Holds v.place v.trail := by
  induction m using inside_out with
  | step name entry nested ih =>
    intro v
    rw [walk, List.mem_cons, List.mem_map, nestedWalks_eq]
    constructor
    · rintro (rfl | ⟨w, hw, rfl⟩)
      · exact .self (.mk name entry nested)
      · obtain ⟨k, part, u, found, hu, rfl⟩ := (Visit.mem_numbered 0 _ w).mp hw
        rw [List.getElem?_map] at found
        obtain ⟨m, member, rfl⟩ := Option.map_eq_some_iff.mp found
        by_cases dropped : m.mapEntry = true
        · rw [if_pos dropped] at hu
          cases hu
        · rw [if_neg dropped] at hu
          have inside := (ih m (List.mem_of_getElem? member) u).mp hu
          rw [Nat.zero_add]
          exact Holds.inner member (by simpa using dropped) inside
    · intro held
      obtain ⟨place, trail⟩ := v
      cases held with
      | self => exact Or.inl rfl
      | @inner _ m i place trail member kept inside =>
        right
        have found := (ih m (List.mem_of_getElem? member) ⟨place, trail⟩).mpr inside
        refine ⟨⟨i :: place, trail⟩, (Visit.mem_numbered 0 _ _).mpr ?_, rfl⟩
        refine ⟨i, m.walk, ⟨place, trail⟩, ?_, found, by rw [Nat.zero_add]; rfl⟩
        rw [List.getElem?_map]
        change nested[i]? = some m at member
        simp [member, kept]

theorem walk_ascending (m : Message) : m.walk.Pairwise Visit.Before := by
  induction m using inside_out with
  | step name entry nested ih =>
    rw [walk, nestedWalks_eq, List.pairwise_cons, List.pairwise_map]
    constructor
    · intro v hv
      obtain ⟨w, hw, rfl⟩ := List.mem_map.mp hv
      obtain ⟨k, _, u, _, _, rfl⟩ := (Visit.mem_numbered 0 _ w).mp hw
      exact .nil
    · refine Visit.numbered_ascending 0 _ ?_
      intro part hpart
      obtain ⟨m, hm, rfl⟩ := List.mem_map.mp hpart
      by_cases dropped : m.mapEntry = true
      · rw [if_pos dropped]
        exact List.Pairwise.nil
      · rw [if_neg dropped]
        exact ih m hm

/-- What a message declares is what is met on the walk through it. -/
theorem declarations_eq (m : Message) : ∀ scope classScope,
    m.declarations scope classScope = m.walk.map (Visit.declaration scope classScope) := by
  induction m using inside_out with
  | step name entry nested ih =>
    intro scope classScope
    have parts :
        nestedDeclarations (Name.qualify scope name) (Name.qualify classScope name) nested =
          (Visit.numbered 0 (nestedWalks nested)).map
            (Visit.declaration (Name.qualify scope name) (Name.qualify classScope name)) := by
      rw [nestedDeclarations_eq, Visit.map_numbered, nestedWalks_eq, List.flatMap_map]
      apply List.flatMap_congr
      intro m hm
      by_cases dropped : m.mapEntry = true
      · rw [if_pos dropped, if_pos dropped]
        rfl
      · rw [if_neg dropped, if_neg dropped, ih m hm]
    rw [declarations, parts, walk, List.map_cons, List.map_map]
    rfl

theorem Holds.trail_eq {m : Message} {place : List Nat} {trail : List String}
    (held : m.Holds place trail) : ∃ rest, trail = m.name :: rest := by
  cases held with
  | self => exact ⟨[], rfl⟩
  | inner _ _ _ => exact ⟨_, rfl⟩

end Message

namespace Name

/-- In a scope that is not empty a trail is put behind it, whatever the names are. -/
theorem foldl_qualify {scope : String} (nonempty : scope ≠ "") {trail : List String}
    (some : trail ≠ []) :
    trail.foldl qualify scope = scope ++ "." ++ String.intercalate "." trail := by
  induction trail generalizing scope with
  | nil => exact absurd rfl some
  | cons name trail ih =>
    rw [List.foldl_cons, qualify_of_ne nonempty]
    cases trail with
    | nil => rw [List.foldl_nil, String.intercalate_singleton]
    | cons next trail =>
      rw [ih (by simp [nonempty]) (List.cons_ne_nil next trail), String.intercalate_cons_cons]
      simp only [String.append_assoc]

/-- A trail that starts with a name joins its names by dots. -/
theorem foldl_qualify_empty {name : String} (nonempty : name ≠ "") (rest : List String) :
    (name :: rest).foldl qualify "" = String.intercalate "." (name :: rest) := by
  rw [List.foldl_cons, qualify, if_pos rfl]
  cases rest with
  | nil => rw [List.foldl_nil, String.intercalate_singleton]
  | cons next rest =>
    rw [foldl_qualify nonempty (List.cons_ne_nil next rest), String.intercalate_cons_cons]

theorem outermost_intercalate {name : String} (undotted : '.' ∉ name.toList)
    (rest : List String) : outermost (String.intercalate "." (name :: rest)) = name := by
  cases rest with
  | nil =>
    rw [String.intercalate_singleton]
    exact Text.upTo_of_notMem undotted
  | cons next rest =>
    rw [String.intercalate_cons_cons]
    exact Text.upTo_append undotted _

end Name

namespace SchemaFile

def walk (f : SchemaFile) : List Visit := Visit.numbered 0 (f.messages.map Message.walk)

/-- The kept messages of a file, each once, in the order of their places. -/
structure Preorder (f : SchemaFile) (visits : List Visit) : Prop where
  kept : ∀ v, v ∈ visits ↔ f.Holds v.place v.trail
  ascending : visits.Pairwise Visit.Before

/-- The entry of a message type, with names built along the trail to its message. -/
def entryOf (f : SchemaFile) (v : Visit) : Entry :=
  ⟨v.trail.foldl Name.qualify f.package, v.trail.foldl Name.qualify "", f.origin, false⟩

/-- The names of a message type tell the path to its message. -/
structure NamedByPath (f : SchemaFile) (v : Visit) : Prop where
  className : (f.entryOf v).className = String.intercalate "." v.trail
  name : (f.entryOf v).name =
    if f.package = "" then String.intercalate "." v.trail
    else f.package ++ "." ++ String.intercalate "." v.trail
  outermost : ∃ i place root, v.place = i :: place ∧ f.messages[i]? = some root ∧
    (f.entryOf v).outermost = root.name

theorem walk_preorder (f : SchemaFile) : f.Preorder f.walk where
  kept v := by
    rw [walk, Visit.mem_numbered]
    constructor
    · rintro ⟨k, part, w, found, hw, rfl⟩
      rw [List.getElem?_map] at found
      obtain ⟨m, member, rfl⟩ := Option.map_eq_some_iff.mp found
      rw [Nat.zero_add]
      exact .top member ((m.mem_walk w).mp hw)
    · intro held
      obtain ⟨place, trail⟩ := v
      cases held with
      | @top m i place _ member inside =>
        refine ⟨i, m.walk, ⟨place, trail⟩, ?_, (m.mem_walk _).mpr inside, ?_⟩
        · rw [List.getElem?_map, member]
          rfl
        · rw [Nat.zero_add]
          rfl
  ascending := by
    apply Visit.numbered_ascending
    intro part hpart
    obtain ⟨m, _, rfl⟩ := List.mem_map.mp hpart
    exact m.walk_ascending

-- A map entry is kept at the top level; nested, it is dropped with all inside it.
example :
    walk { name := "a.proto"
           messages := [.mk "A" true [.mk "B" true [.mk "C" false []], .mk "D" false []]] } =
      [⟨[0], ["A"]⟩, ⟨[0, 1], ["A", "D"]⟩] := by decide

theorem entriesOf_eq (f : SchemaFile) : Catalog.entriesOf f = f.walk.map f.entryOf := by
  have declared : f.declarations = f.walk.map (Visit.declaration f.package "") := by
    rw [declarations, walk, Visit.map_numbered, List.flatMap_map]
    exact List.flatMap_congr fun m _ => m.declarations_eq f.package ""
  rw [Catalog.entriesOf, declared, List.map_map]
  rfl

theorem namedByPath {f : SchemaFile} {v : Visit} (held : f.Holds v.place v.trail)
    (plain : ∀ name ∈ v.trail, name ≠ "" ∧ '.' ∉ name.toList) : f.NamedByPath v := by
  obtain ⟨place, trail⟩ := v
  cases held with
  | @top root i place _ member inside =>
    obtain ⟨rest, rfl⟩ := inside.trail_eq
    obtain ⟨nonempty, undotted⟩ := plain root.name List.mem_cons_self
    have className := Name.foldl_qualify_empty nonempty rest
    refine ⟨className, ?_, i, place, root, rfl, member, ?_⟩
    · by_cases bare : f.package = ""
      · rw [if_pos bare, entryOf, bare]
        exact className
      · rw [if_neg bare]
        exact Name.foldl_qualify bare (List.cons_ne_nil _ _)
    · rw [Entry.outermost, entryOf]
      dsimp only
      rw [className, Name.outermost_intercalate undotted]

end SchemaFile

namespace Catalog

/-- The names of the entries are pairwise distinct and new. -/
def Admits (c : Catalog) (es : List Entry) : Prop :=
  (es.map Entry.name).Nodup ∧ ∀ e ∈ es, e.name ∉ c.names

theorem admits_cons (c : Catalog) (e : Entry) (es : List Entry) :
    c.Admits (e :: es) ↔ e.name ∉ c.names ∧ (Catalog.mk (c.entries ++ [e])).Admits es := by
  have names : (Catalog.mk (c.entries ++ [e])).names = c.names ++ [e.name] := by
    simp [Catalog.names]
  simp only [Admits, names, List.map_cons, List.nodup_cons, List.forall_mem_cons, List.mem_append,
    List.mem_singleton, not_or, List.mem_map, not_exists, not_and]
  constructor
  · rintro ⟨⟨apart, distinct⟩, fresh, others⟩
    exact ⟨fresh, distinct, fun d hd => ⟨others d hd, apart d hd⟩⟩
  · rintro ⟨fresh, distinct, others⟩
    exact ⟨⟨fun d hd => (others d hd).2, distinct⟩, fresh, fun d hd => (others d hd).1⟩

/-- Entries that are admitted are added, and the others are then added to the result. -/
theorem addAll_append {c : Catalog} {added : List Entry} (admits : c.Admits added)
    (rest : List Entry) :
    c.addAll (added ++ rest) = (Catalog.mk (c.entries ++ added)).addAll rest := by
  induction added generalizing c with
  | nil => simp
  | cons e added ih =>
    obtain ⟨fresh, others⟩ := (admits_cons c e added).mp admits
    rw [List.cons_append, addAll, add_of_notMem fresh]
    dsimp only
    rw [ih others, List.append_assoc, List.singleton_append]

theorem exists_first_taken {c : Catalog} {es : List Entry} (refused : ¬ c.Admits es) :
    ∃ added e rest first, es = added ++ e :: rest ∧ c.Admits added ∧
      (Catalog.mk (c.entries ++ added)).find? e.name = some first := by
  induction es generalizing c with
  | nil => exact absurd ⟨List.nodup_nil, List.forall_mem_nil _⟩ refused
  | cons e es ih =>
    cases found : c.find? e.name with
    | some first =>
      refine ⟨[], e, es, first, rfl, ⟨List.nodup_nil, List.forall_mem_nil _⟩, ?_⟩
      rw [List.append_nil]
      exact found
    | none =>
      have fresh := (find?_eq_none_iff c e.name).mp found
      have later : ¬ (Catalog.mk (c.entries ++ [e])).Admits es :=
        fun others => refused ((admits_cons c e es).mpr ⟨fresh, others⟩)
      obtain ⟨added, d, rest, first, rfl, admits, taken⟩ := ih later
      refine ⟨e :: added, d, rest, first, rfl, (admits_cons c e added).mpr ⟨fresh, admits⟩, ?_⟩
      simpa using taken

/-- Adding a file adds its messages in pre-order: all of them when their names are distinct and
new, and else those before the first whose name is taken, with a fault that tells both files.
Where names are not empty and have no dots, the path of a message can be read off its names. -/
theorem addFile_preorder (c : Catalog) (f : SchemaFile) :
    ∃ visits, f.Preorder visits ∧
      (c.Admits (visits.map f.entryOf) →
        c.addFile f = ⟨⟨c.entries ++ visits.map f.entryOf⟩, [.registered visits.length f.name],
          .ok f.origin⟩) ∧
      (¬ c.Admits (visits.map f.entryOf) →
        ∃ added e rest first, visits.map f.entryOf = added ++ e :: rest ∧ c.Admits added ∧
          (Catalog.mk (c.entries ++ added)).find? e.name = some first ∧
          c.addFile f = ⟨⟨c.entries ++ added⟩, [],
            .error (.duplicateType e.name first.origin.file f.name)⟩) ∧
      ∀ v ∈ visits, (∀ name ∈ v.trail, name ≠ "" ∧ '.' ∉ name.toList) → f.NamedByPath v := by
  have preorder := f.walk_preorder
  refine ⟨f.walk, preorder, ?_, ?_, ?_⟩
  · intro admits
    have all := addAll_append admits []
    rw [List.append_nil] at all
    rw [addFile, f.entriesOf_eq, all, addAll, Outcome.andThen_done, List.length_map]
    rfl
  · intro refused
    obtain ⟨added, e, rest, first, split, admits, taken⟩ := exists_first_taken refused
    have owner : e.origin.file = f.name := by
      have member : e ∈ f.walk.map f.entryOf := by rw [split]; simp
      obtain ⟨v, _, rfl⟩ := List.mem_map.mp member
      rfl
    refine ⟨added, e, rest, first, split, admits, taken, ?_⟩
    rw [addFile, f.entriesOf_eq, split, addAll_append admits, addAll, add, taken, owner]
    rfl
  · intro v hv plain
    exact SchemaFile.namedByPath ((preorder.kept v).mp hv) plain

end Catalog

end RpcScaffold
