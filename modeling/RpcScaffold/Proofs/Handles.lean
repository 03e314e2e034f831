import RpcScaffold.Proofs.Session

/-!
# Entries keep their places

The place of an entry in the catalog is the identity of its type. Here drafts may join a
session at any time, and every operation may fail. An entry is never moved, replaced or taken
out: at its place there is the same type at every later time, and once it is settled it stays
so. A draft has copies of the entries that it depends on. They are settled, so they are at all
times what the catalog has under their names. Reading class references and imports off a draft
changes nothing and is no move.
-/
namespace RpcScaffold

/-- A later state of an entry: the same type, and settled if it was. -/
structure Entry.Kept (e later : Entry) : Prop where
  name : later.name = e.name
  className : later.className = e.className
  origin : later.origin = e.origin
  settled : e.settled = true → later.settled = true

namespace Entry

theorem Kept.refl (e : Entry) : Kept e e := ⟨rfl, rfl, rfl, id⟩

theorem Kept.trans {a b c : Entry} (first : Kept a b) (second : Kept b c) : Kept a c where
  name := second.name.trans first.name
  className := second.className.trans first.className
  origin := second.origin.trans first.origin
  settled h := second.settled (first.settled h)

theorem settle_kept (e : Entry) : Kept e e.settle := ⟨rfl, rfl, rfl, fun _ => rfl⟩

/-- A settled entry has no other later state. -/
theorem Kept.eq_of_settled {e later : Entry} (h : Kept e later) (settled : e.settled = true) :
    later = e := by
  obtain ⟨name, className, origin, still⟩ := h
  have same := still settled
  cases e
  cases later
  simp_all

end Entry

namespace Catalog

/-- A later state of a catalog: at every place there is still the entry that was there. -/
def Holds (c later : Catalog) : Prop :=
  ∀ (place : Nat) (e : Entry), c.entries[place]? = some e →
    ∃ kept, later.entries[place]? = some kept ∧ Entry.Kept e kept

theorem Holds.refl (c : Catalog) : Holds c c := fun _ e h => ⟨e, h, Entry.Kept.refl e⟩

theorem Holds.trans {a b c : Catalog} (first : Holds a b) (second : Holds b c) : Holds a c := by
  intro place e h
  obtain ⟨between, there, kept⟩ := first place e h
  obtain ⟨final, found, still⟩ := second place between there
  exact ⟨final, found, kept.trans still⟩

theorem holds_of_append {c later : Catalog} (added : List Entry)
    (entries : later.entries = c.entries ++ added) : Holds c later := by
  intro place e h
  refine ⟨e, ?_, Entry.Kept.refl e⟩
  have bound : place < c.entries.length := (List.getElem?_eq_some_iff.mp h).1
  rw [entries, List.getElem?_append_left bound]
  exact h

theorem holds_of_map {c : Catalog} {change : Entry → Entry} (kept : ∀ e, Entry.Kept e (change e)) :
    Holds c ⟨c.entries.map change⟩ := by
  intro place e h
  exact ⟨change e, by simp [h], kept e⟩

theorem addFile_holds (c : Catalog) (f : SchemaFile) (distinct : c.names.Nodup) :
    Holds c (c.addFile f).state := by
  obtain ⟨added, entries, _⟩ := addFile_extends c f distinct
  exact holds_of_append added entries

theorem addAll_holds (c : Catalog) (es : List Entry) (distinct : c.names.Nodup) :
    Holds c (c.addAll es).state := by
  rcases addAll_cases c es distinct with ⟨_, all⟩ | ⟨added, _, _, _, _, _, _, failed⟩
  · exact holds_of_append es (by simp [all, Outcome.done])
  · exact holds_of_append added (by simp [failed, Outcome.fail])

theorem settle_holds (c : Catalog) (name : String) : Holds c (c.settle name) := by
  apply holds_of_map
  intro e
  by_cases same : e.name = name
  · simpa [same] using e.settle_kept
  · simpa [same] using Entry.Kept.refl e

theorem settleAll_holds (c : Catalog) : Holds c c.settleAll :=
  holds_of_map Entry.settle_kept

theorem change_holds (c : Catalog) (change : Change) (distinct : c.names.Nodup) :
    Holds c (c.change change) := by
  cases change with
  | addFile file => exact c.addFile_holds file distinct
  | addEntry origin name className => exact c.addAll_holds _ distinct
  | settle name => exact c.settle_holds name
  | settleAll => exact c.settleAll_holds

/-- The entry at a place is the one that is found under its name. -/
theorem find?_of_getElem? {c : Catalog} (distinct : c.names.Nodup) {place : Nat} {e : Entry}
    (h : c.entries[place]? = some e) : c.find? e.name = some e :=
  find?_of_mem distinct (List.mem_of_getElem? h)

end Catalog

namespace Session

/-- A draft that joins the session, or a step of one that is in it. -/
inductive Move where
  | join (service : Service) (origin : Origin)
  | step (a : Step)

def move (s : Session) : Move → Session
  | .join service origin => { s with drafts := s.drafts ++ [Draft.ofService service origin] }
  | .step a => s.step a

def play (s : Session) (moves : List Move) : Session := moves.foldl move s

theorem Consistent.move {s : Session} (h : s.Consistent) (m : Move) : (s.move m).Consistent := by
  cases m with
  | step a => exact h.step a
  | join service origin =>
    have old : ∀ d ∈ (s.move (.join service origin)).drafts,
        d ∈ s.drafts ∨ d = Draft.ofService service origin := by
      intro d hd
      simpa [Session.move] using hd
    refine ⟨h.names, ?_, ?_⟩
    · intro d hd e he
      rcases old d hd with hd | rfl
      · exact h.dependencies d hd e he
      · cases he
    · intro d hd
      rcases old d hd with hd | rfl
      · exact h.distinct d hd
      · exact List.nodup_nil

theorem Consistent.play {s : Session} (h : s.Consistent) (moves : List Move) :
    (s.play moves).Consistent := by
  induction moves generalizing s with
  | nil => exact h
  | cons m moves ih => exact ih (h.move m)

theorem move_holds {s : Session} (h : s.Consistent) (m : Move) :
    s.catalog.Holds (s.move m).catalog := by
  cases m with
  | join service origin => exact .refl s.catalog
  | step a =>
    cases a with
    | catalog change => exact s.catalog.change_holds change h.names
    | _ => exact .refl s.catalog

/-- However a session goes on, no entry leaves its place. -/
theorem play_holds {s : Session} (h : s.Consistent) (moves : List Move) :
    s.catalog.Holds (s.play moves).catalog := by
  induction moves generalizing s with
  | nil => exact .refl s.catalog
  | cons m moves ih => exact (move_holds h m).trans (ih (h.move m))

/-- How the types and dependencies of a session stand to those of a later state of it. -/
structure Steady (s later : Session) : Prop where
  /-- A name occurs once, and under it there is the entry of this name. -/
  once : s.catalog.names.Nodup
  named : ∀ name e, s.catalog.find? name = some e → e.name = name
  /-- A type keeps its place, and there it is found under its name. -/
  kept : ∀ (place : Nat) (e : Entry), s.catalog.entries[place]? = some e →
    s.catalog.find? e.name = some e ∧
    ∃ same, later.catalog.entries[place]? = some same ∧ Entry.Kept e same ∧
      later.catalog.find? e.name = some same
  /-- A dependency is found under its own name, in the draft and in both catalogs, and at one
  place of the catalogs. -/
  shared : ∀ d ∈ s.drafts, ∀ e ∈ d.dependencies, e.settled = true ∧
    d.dependency? e.name = some e ∧ s.catalog.find? e.name = some e ∧
    later.catalog.find? e.name = some e ∧
    ∃ place : Nat, s.catalog.entries[place]? = some e ∧ later.catalog.entries[place]? = some e

/-- Whatever is done with a catalog and the drafts that use it, types and dependencies stay as
they are. -/
theorem steady_play (moves others : List Move) :
    Steady (({} : Session).play moves) ((({} : Session).play moves).play others) := by
  have consistent : (({} : Session).play moves).Consistent :=
    (Consistent.start (List.forall_mem_nil _)).play moves
  generalize ({} : Session).play moves = s at consistent
  have later := consistent.play others
  have holds := play_holds consistent others
  refine ⟨consistent.names, fun name e found => (Catalog.mem_of_find? found).2, ?_, ?_⟩
  · intro place e there
    obtain ⟨same, still, kept⟩ := holds place e there
    have found := Catalog.find?_of_getElem? later.names still
    rw [kept.name] at found
    exact ⟨Catalog.find?_of_getElem? consistent.names there, same, still, kept, found⟩
  · intro d hd e he
    obtain ⟨member, settled⟩ := consistent.dependencies d hd e he
    obtain ⟨inDraft, inCatalog⟩ := consistent.lookup hd he
    obtain ⟨place, there⟩ := List.mem_iff_getElem?.mp member
    obtain ⟨same, still, kept⟩ := holds place e there
    -- The entry was settled, so nothing of it can have changed since.
    obtain rfl := kept.eq_of_settled settled
    have found := Catalog.find?_of_getElem? later.names still
    exact ⟨settled, inDraft, inCatalog, found, place, there, still⟩

end Session

end RpcScaffold
