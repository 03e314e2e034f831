import RpcScaffold.Proofs.OptionGrammar

/-!
# Options that can be written

Rendering writes one item for each key. Reading the items back gives the same options exactly
when both texts are plain: not empty, without a comma, and without a blank at either end. Any
other character may stand in them, an equals sign or an inner blank too, for a value starts after
the first equals sign of its item and ends with the item. Reading gives plain texts only, so the
options that can be read from some string are those that can be read from their own rendering.
-/
namespace RpcScaffold.Options

open Text

/-- A text that an item can carry as its value. -/
structure Plain (value : String) : Prop where
  nonempty : value ≠ ""
  unseparated : ',' ∉ value.toList
  trimmed : Trimmed value

instance (value : String) : Decidable (Plain value) :=
  decidable_of_iff (value ≠ "" ∧ ',' ∉ value.toList ∧ Trimmed value)
    ⟨fun h => ⟨h.1, h.2.1, h.2.2⟩, fun h => ⟨h.nonempty, h.unseparated, h.trimmed⟩⟩

structure Writable (o : Options) : Prop where
  runtimeModule : Plain o.runtimeModule
  moduleSuffix : Plain o.moduleSuffix

/-- The text that a setting has in an item. -/
def Setting.text : Setting → String
  | runtimeModule value => value
  | moduleSuffix value => value
  | formatOutput flag => if flag then "true" else "false"

def Setting.item (s : Setting) : String := s.key.text ++ "=" ++ s.text

theorem plain_keyText (key : Key) : Plain key.text := by
  cases key <;> decide

theorem unmarked_keyText (key : Key) : '=' ∉ key.text.toList := by
  cases key <;> decide

theorem plain_flagText (flag : Bool) : Plain (Setting.formatOutput flag).text := by
  cases flag <;> decide

/-- The flag of the options is always plain, so options are writable when every setting is. -/
theorem writable_iff_plain (o : Options) : Writable o ↔ ∀ key, Plain (o.setting key).text := by
  constructor
  · intro writable key
    cases key with
    | runtimeModule => exact writable.runtimeModule
    | moduleSuffix => exact writable.moduleSuffix
    | formatOutput => exact plain_flagText o.formatOutput
  · intro plain
    exact ⟨plain .runtimeModule, plain .moduleSuffix⟩

theorem Assigns.trimmed {item key value : String} (assigns : Assigns item key value) :
    Trimmed value := by
  cases assigns with
  | pair _ _ _ ofValue => exact ofValue.trimmed
  | bare => exact trimmed_empty

/-- A value is a part of its item. -/
theorem Assigns.mem_item {item key value : String} (assigns : Assigns item key value) {c : Char}
    (h : c ∈ value.toList) : c ∈ item.toList := by
  cases assigns with
  | pair padded _ _ ofValue =>
    have after := ofValue.mem h
    exact padded.mem (by simp [after])
  | bare => simp at h

theorem plain_of_tells {item : String} {s : Setting} (tells : Tells item s)
    (absent : ',' ∉ item.toList) : Plain s.text := by
  cases tells with
  | runtimeModule assigns nonempty =>
    exact ⟨nonempty, fun comma => absent (assigns.mem_item comma), assigns.trimmed⟩
  | moduleSuffix assigns nonempty =>
    exact ⟨nonempty, fun comma => absent (assigns.mem_item comma), assigns.trimmed⟩
  | formatOutput => exact plain_flagText _

theorem writable_default : Writable {} := ⟨by decide, by decide⟩

theorem writable_of_parse {p : String} {o : Options} (h : parse p = .ok o) : Writable o := by
  have joined := joined_pieces ',' p
  rw [writable_iff_plain]
  intro key
  rcases latest_of_setItems h key with ⟨front, item, back, s, split, tells, _, _, value⟩ | ⟨_, kept⟩
  · rw [value]
    exact plain_of_tells tells (joined.absent item (by simp [split]))
  · rw [kept]
    exact (writable_iff_plain {}).mp writable_default key

theorem assigns_item (s : Setting) (plain : Plain s.text) : Assigns s.item s.key.text s.text := by
  have named := plain_keyText s.key
  have whole : Trimmed s.item :=
    named.trimmed.append plain.trimmed named.nonempty plain.nonempty "="
  exact .pair whole.padded (unmarked_keyText s.key) named.trimmed.padded plain.trimmed.padded

theorem tells_item (s : Setting) (plain : Plain s.text) : Tells s.item s := by
  have assigns := assigns_item s plain
  cases s with
  | runtimeModule value => exact .runtimeModule assigns plain.nonempty
  | moduleSuffix value => exact .moduleSuffix assigns plain.nonempty
  | formatOutput flag => exact .formatOutput assigns (by cases flag <;> decide)

theorem unseparated_item (s : Setting) (plain : Plain s.text) : ',' ∉ s.item.toList := by
  have named := (plain_keyText s.key).unseparated
  simp [Setting.item, named, plain.unseparated]

theorem setItems_of_plain (o : Options) {settings : List Setting}
    (plain : ∀ s ∈ settings, Plain s.text) :
    o.setItems (settings.map Setting.item) = .ok (settings.foldl apply o) := by
  induction settings generalizing o with
  | nil => rfl
  | cons s settings ih =>
    rw [List.forall_mem_cons] at plain
    rw [List.map_cons, setItems_cons, setItem_of_tells o (tells_item s plain.1), Except.bind,
      ih (o.apply s) plain.2, List.foldl_cons]

def settings (o : Options) : List Setting := Key.all.map o.setting

theorem foldl_apply_settings (start o : Options) : o.settings.foldl apply start = o := rfl

theorem joined_render (o : Options) (plain : ∀ s ∈ o.settings, Plain s.text) :
    Joined ',' o.render (o.settings.map Setting.item) where
  nonempty := by simp [settings, Key.all]
  absent item h := by
    obtain ⟨s, member, rfl⟩ := List.mem_map.mp h
    exact unseparated_item s (plain s member)
  joins := by
    rw [← String.toList_inj]
    simp [render, settings, Key.all, setting, Setting.item, Setting.key, Setting.text]

theorem parse_render {o : Options} (writable : Writable o) : parse o.render = .ok o := by
  have plain : ∀ s ∈ o.settings, Plain s.text := by
    intro s member
    obtain ⟨key, _, rfl⟩ := List.mem_map.mp member
    exact (writable_iff_plain o).mp writable key
  rw [parse, (joined_render o plain).pieces_eq, setItems_of_plain {} plain, foldl_apply_settings]

/-- Writable options are those that some string gives, and those that their rendering gives. -/
theorem writable_iff_parsed (o : Options) :
    ((∃ p, parse p = .ok o) ↔ Writable o) ∧ (parse o.render = .ok o ↔ Writable o) := by
  refine ⟨⟨?_, fun writable => ⟨_, parse_render writable⟩⟩, writable_of_parse, parse_render⟩
  rintro ⟨p, h⟩
  exact writable_of_parse h

example : parse (render { runtimeModule := "a = b", moduleSuffix := "=" }) =
    .ok { runtimeModule := "a = b", moduleSuffix := "=" } := by decide +kernel

end RpcScaffold.Options
