import RpcScaffold.Options
import RpcScaffold.Proofs.Cutting
import RpcScaffold.Proofs.Naming
import RpcScaffold.Proofs.Steps
import RpcScaffold.Proofs.Stripping

/-!
# The grammar of options

Which option strings are read, and as what. A string is its items with commas between them. An
item is blank, or a key and a value with the first equals sign between them, or a key alone;
blanks around items, keys and values do not count. The grammar tells what an item sets or why it
is refused, without a word on how it is cut. A string is read when none of its items is refused,
and the first one that is decides the refusal, whatever comes after it. Every field has the value
of the last item that sets it.

Lower case is the lower case of single characters. No word of the grammar has a character whose
lower case depends on its neighbours.
-/
namespace RpcScaffold.Options

open Text

/-- A field of the options together with its value. -/
inductive Setting where
  | runtimeModule (value : String)
  | moduleSuffix (value : String)
  | formatOutput (flag : Bool)
  deriving Repr, DecidableEq

def Setting.key : Setting → Key
  | runtimeModule _ => .runtimeModule
  | moduleSuffix _ => .moduleSuffix
  | formatOutput _ => .formatOutput

/-- What the options say about a key. -/
def setting (o : Options) : Key → Setting
  | .runtimeModule => .runtimeModule o.runtimeModule
  | .moduleSuffix => .moduleSuffix o.moduleSuffix
  | .formatOutput => .formatOutput o.formatOutput

def apply (o : Options) : Setting → Options
  | .runtimeModule value => { o with runtimeModule := value }
  | .moduleSuffix value => { o with moduleSuffix := value }
  | .formatOutput flag => { o with formatOutput := flag }

theorem setting_apply (o : Options) (s : Setting) (key : Key) :
    (o.apply s).setting key = if s.key = key then s else o.setting key := by
  cases s <;> cases key <;> rfl

/-- An item that gives a value to a key. A key alone has the empty value. -/
inductive Assigns (item : String) : String → String → Prop where
  | pair {before after key value : String} (padded : Padded (before ++ "=" ++ after) item)
    (first : '=' ∉ before.toList) (ofKey : Padded key before) (ofValue : Padded value after) :
    Assigns item key value
  | bare {key : String} (padded : Padded key item) (nonempty : key ≠ "")
    (unmarked : '=' ∉ key.toList) : Assigns item key ""

/-- What an item sets. -/
inductive Tells (item : String) : Setting → Prop where
  | runtimeModule {value : String} (assigns : Assigns item "runtime_module" value)
    (nonempty : value ≠ "") : Tells item (.runtimeModule value)
  | moduleSuffix {value : String} (assigns : Assigns item "service_module_suffix" value)
    (nonempty : value ≠ "") : Tells item (.moduleSuffix value)
  | formatOutput {value : String} {flag : Bool} (assigns : Assigns item "format_output" value)
    (word : Text.lower value ∈ if flag then trueWords else falseWords) :
    Tells item (.formatOutput flag)

def Accepted (item : String) : Prop := Padded "" item ∨ ∃ s, Tells item s

/-- Why an item is refused. -/
inductive Offends (item : String) : Refusal → Prop where
  | unknownKey {key value : String} (assigns : Assigns item key value)
    (unknown : ∀ known : Key, known.text ≠ key) : Offends item (.unknownKey key)
  | missingValue {key : Key} (assigns : Assigns item key.text "") (needed : key ≠ .formatOutput) :
    Offends item (.missingValue key)
  | notBoolean {value : String} (assigns : Assigns item "format_output" value)
    (word : Text.lower value ∉ trueWords ++ falseWords) :
    Offends item (.notBoolean .formatOutput value)

theorem assigns_iff (item key value : String) :
    Assigns item key value ↔
      strip item ≠ "" ∧ strip (upTo '=' (strip item)) = key ∧
        strip (past '=' (strip item)) = value := by
  constructor
  · rintro (⟨padded, first, ofKey, ofValue⟩ | ⟨padded, nonempty, unmarked⟩)
    · rw [padded.strip_eq, ← ofKey.strip_eq, ← ofValue.strip_eq]
      exact ⟨by simp, congrArg strip (upTo_append first _), congrArg strip (past_append first _)⟩
    · rw [padded.strip_eq, upTo_of_notMem unmarked, past_of_notMem unmarked]
      exact ⟨nonempty, padded.trimmed.padded.strip_eq, trimmed_empty.padded.strip_eq⟩
  · rintro ⟨nonempty, rfl, rfl⟩
    have padded := padded_strip item
    by_cases marked : '=' ∈ (strip item).toList
    · refine .pair ?_ (notMem_upTo '=' (strip item)) (padded_strip _) (padded_strip _)
      have whole := upTo_append_past marked
      rw [show "=" = String.singleton '=' from rfl, whole]
      exact padded
    · rw [upTo_of_notMem marked, past_of_notMem marked, padded.trimmed.padded.strip_eq,
        trimmed_empty.padded.strip_eq]
      exact .bare padded nonempty marked

theorem Key.ofText?_text (key : Key) : Key.ofText? key.text = some key := by
  cases key <;> decide

theorem Key.ofText?_eq_none_iff (text : String) :
    Key.ofText? text = none ↔ ∀ known : Key, known.text ≠ text := by
  simp only [ofText?, List.find?_eq_none, decide_eq_true_eq]
  constructor
  · intro absent known
    exact absent known (by cases known <;> decide)
  · exact fun absent known _ => absent known

theorem Key.text_of_ofText? {text : String} {key : Key} (h : Key.ofText? text = some key) :
    key.text = text := by
  simpa using List.find?_some h

theorem flag?_eq_some_iff (value : String) (flag : Bool) :
    flag? value = some flag ↔ Text.lower value ∈ if flag then trueWords else falseWords := by
  have apart : ∀ word ∈ trueWords, word ∉ falseWords := by decide
  rw [flag?]
  cases flag with
  | true => by_cases yes : Text.lower value ∈ trueWords <;> simp [yes]
  | false =>
    by_cases yes : Text.lower value ∈ trueWords
    · simp [yes, apart _ yes]
    · simp [yes]

theorem flag?_eq_none_iff (value : String) :
    flag? value = none ↔ Text.lower value ∉ trueWords ++ falseWords := by
  rw [flag?]
  by_cases yes : Text.lower value ∈ trueWords <;> simp [yes]

theorem setItem_of_blank (o : Options) {item : String} (blank : Padded "" item) :
    o.setItem item = .ok o := by
  simp only [setItem, blank.strip_eq, if_true]

theorem setItem_of_known (o : Options) {item value : String} {known : Key}
    (assigns : Assigns item known.text value) : o.setItem item = o.set known value := by
  obtain ⟨nonempty, key, rfl⟩ := (assigns_iff item known.text value).mp assigns
  simp only [setItem, if_neg nonempty, key, Key.ofText?_text]

theorem setItem_of_unknown (o : Options) {item key value : String}
    (assigns : Assigns item key value) (unknown : ∀ known : Key, known.text ≠ key) :
    o.setItem item = .error (.unknownKey key) := by
  obtain ⟨nonempty, rfl, rfl⟩ := (assigns_iff item key value).mp assigns
  simp only [setItem, if_neg nonempty, (Key.ofText?_eq_none_iff _).mpr unknown]

theorem setItem_of_tells (o : Options) {item : String} {s : Setting} (tells : Tells item s) :
    o.setItem item = .ok (o.apply s) := by
  cases tells with
  | runtimeModule assigns nonempty =>
    have step : o.setItem item = o.set .runtimeModule _ := setItem_of_known o assigns
    rw [step, set, if_neg nonempty, apply]
  | moduleSuffix assigns nonempty =>
    have step : o.setItem item = o.set .moduleSuffix _ := setItem_of_known o assigns
    rw [step, set, if_neg nonempty, apply]
  | formatOutput assigns word =>
    have step : o.setItem item = o.set .formatOutput _ := setItem_of_known o assigns
    rw [step, set, (flag?_eq_some_iff _ _).mpr word, apply]

theorem setItem_of_offends (o : Options) {item : String} {r : Refusal} (offends : Offends item r) :
    o.setItem item = .error r := by
  cases offends with
  | unknownKey assigns unknown => exact setItem_of_unknown o assigns unknown
  | @missingValue key assigns needed =>
    rw [setItem_of_known o assigns]
    cases key with
    | runtimeModule => rw [set, if_pos rfl]
    | moduleSuffix => rw [set, if_pos rfl]
    | formatOutput => exact absurd rfl needed
  | notBoolean assigns word =>
    have step : o.setItem item = o.set .formatOutput _ := setItem_of_known o assigns
    rw [step, set, (flag?_eq_none_iff _).mpr word]

/-- Every item is accepted or refused for a reason. -/
theorem accepted_or_offends (item : String) : Accepted item ∨ ∃ r, Offends item r := by
  by_cases blank : strip item = ""
  · exact Or.inl (Or.inl ((strip_eq_iff item "").mp blank))
  · have assigns := (assigns_iff item _ _).mpr ⟨blank, rfl, rfl⟩
    generalize strip (upTo '=' (strip item)) = key at assigns
    generalize strip (past '=' (strip item)) = value at assigns
    cases known : Key.ofText? key with
    | none => exact Or.inr ⟨_, .unknownKey assigns ((Key.ofText?_eq_none_iff key).mp known)⟩
    | some name =>
      obtain rfl := Key.text_of_ofText? known
      cases name with
      | runtimeModule =>
        by_cases empty : value = ""
        · exact Or.inr ⟨_, .missingValue (empty ▸ assigns) (by decide)⟩
        · exact Or.inl (Or.inr ⟨_, .runtimeModule assigns empty⟩)
      | moduleSuffix =>
        by_cases empty : value = ""
        · exact Or.inr ⟨_, .missingValue (empty ▸ assigns) (by decide)⟩
        · exact Or.inl (Or.inr ⟨_, .moduleSuffix assigns empty⟩)
      | formatOutput =>
        cases word : flag? value with
        | none => exact Or.inr ⟨_, .notBoolean assigns ((flag?_eq_none_iff value).mp word)⟩
        | some flag =>
          exact Or.inl (Or.inr ⟨_, .formatOutput assigns ((flag?_eq_some_iff value flag).mp word)⟩)

/-- What an accepted item does to options, which is the same whatever they were before. -/
theorem setItem_eq_ok {o next : Options} {item : String} (h : o.setItem item = .ok next) :
    (Padded "" item ∧ next = o) ∨ ∃ s, Tells item s ∧ next = o.apply s := by
  rcases accepted_or_offends item with (blank | ⟨s, tells⟩) | ⟨r, offends⟩
  · rw [setItem_of_blank o blank] at h
    exact Or.inl ⟨blank, (Except.ok.inj h).symm⟩
  · rw [setItem_of_tells o tells] at h
    exact Or.inr ⟨s, tells, (Except.ok.inj h).symm⟩
  · rw [setItem_of_offends o offends] at h
    cases h

theorem accepted_of_ok {o next : Options} {item : String} (h : o.setItem item = .ok next) :
    Accepted item := by
  rcases setItem_eq_ok h with ⟨blank, _⟩ | ⟨s, tells, _⟩
  · exact Or.inl blank
  · exact Or.inr ⟨s, tells⟩

theorem setItem_of_accepted (o : Options) {item : String} (accepted : Accepted item) :
    ∃ next, o.setItem item = .ok next := by
  rcases accepted with blank | ⟨s, tells⟩
  · exact ⟨_, setItem_of_blank o blank⟩
  · exact ⟨_, setItem_of_tells o tells⟩

theorem setItem_eq_error_iff (o : Options) (item : String) (r : Refusal) :
    o.setItem item = .error r ↔ Offends item r := by
  refine ⟨fun h => ?_, setItem_of_offends o⟩
  rcases accepted_or_offends item with accepted | ⟨other, offends⟩
  · obtain ⟨next, ok⟩ := setItem_of_accepted o accepted
    rw [ok] at h
    cases h
  · rw [setItem_of_offends o offends] at h
    cases h
    exact offends

theorem setItems_append (o : Options) (front back : List String) :
    o.setItems (front ++ back) = (o.setItems front).bind fun reached => reached.setItems back := by
  rw [setItems, List.foldlM_append]
  rfl

theorem setItems_cons (o : Options) (item : String) (items : List String) :
    o.setItems (item :: items) = (o.setItem item).bind fun next => next.setItems items := by
  rw [setItems, List.foldlM_cons]
  rfl

theorem setItems_ok_iff (o : Options) (items : List String) :
    (∃ last, o.setItems items = .ok last) ↔ ∀ item ∈ items, Accepted item := by
  induction items generalizing o with
  | nil => exact ⟨fun _ => List.forall_mem_nil _, fun _ => ⟨o, rfl⟩⟩
  | cons item items ih =>
    rw [List.forall_mem_cons]
    constructor
    · rintro ⟨last, h⟩
      rw [setItems_cons] at h
      obtain ⟨next, first, rest⟩ := bind_eq_ok h
      exact ⟨accepted_of_ok first, (ih next).mp ⟨last, rest⟩⟩
    · rintro ⟨accepted, others⟩
      obtain ⟨next, first⟩ := setItem_of_accepted o accepted
      obtain ⟨last, rest⟩ := (ih next).mpr others
      exact ⟨last, by rw [setItems_cons, first, Except.bind, rest]⟩

/-- The first item that is refused decides the refusal. -/
theorem setItems_eq_error_iff (o : Options) (items : List String) (r : Refusal) :
    o.setItems items = .error r ↔ ∃ front item back, items = front ++ item :: back ∧
      (∀ other ∈ front, Accepted other) ∧ Offends item r := by
  constructor
  · intro h
    obtain ⟨front, item, back, reached, split, before, refused⟩ := foldlM_eq_error h
    exact ⟨front, item, back, split, (setItems_ok_iff o front).mp ⟨reached, before⟩,
      (setItem_eq_error_iff reached item r).mp refused⟩
  · rintro ⟨front, item, back, rfl, accepted, offends⟩
    obtain ⟨reached, before⟩ := (setItems_ok_iff o front).mpr accepted
    rw [setItems_append, before, Except.bind, setItems_cons, setItem_of_offends reached offends,
      Except.bind]

def Mentions (items : List String) (key : Key) : Prop :=
  ∃ item ∈ items, ∃ s, Tells item s ∧ s.key = key

/-- Every key has the value that the last item mentioning it gives, or the one it had before. -/
def Latest (start : Options) (items : List String) (o : Options) : Prop :=
  ∀ key,
    (∃ front item back s, items = front ++ item :: back ∧ Tells item s ∧ s.key = key ∧
      ¬ Mentions back key ∧ o.setting key = s) ∨
    (¬ Mentions items key ∧ o.setting key = start.setting key)

theorem mentions_cons (item : String) (items : List String) (key : Key) :
    Mentions (item :: items) key ↔ (∃ s, Tells item s ∧ s.key = key) ∨ Mentions items key := by
  simp [Mentions]

/-- An item that mentions a key sets it, and any other item leaves it as it was. -/
theorem setting_of_setItem {o next : Options} {item : String} (h : o.setItem item = .ok next)
    (key : Key) :
    (∃ s, Tells item s ∧ s.key = key ∧ ∀ other after, setItem other item = .ok after →
      after.setting key = s) ∨
    ((¬ ∃ s, Tells item s ∧ s.key = key) ∧ next.setting key = o.setting key) := by
  by_cases named : ∃ s, Tells item s ∧ s.key = key
  · obtain ⟨s, tells, same⟩ := named
    refine Or.inl ⟨s, tells, same, ?_⟩
    intro other after step
    rw [setItem_of_tells other tells] at step
    cases step
    rw [setting_apply, if_pos same]
  · refine Or.inr ⟨named, ?_⟩
    rcases setItem_eq_ok h with ⟨_, rfl⟩ | ⟨s, tells, rfl⟩
    · rfl
    · rw [setting_apply, if_neg fun same => named ⟨s, tells, same⟩]

theorem latest_of_setItems {start o : Options} {items : List String}
    (h : start.setItems items = .ok o) : Latest start items o := by
  induction items generalizing start with
  | nil =>
    cases h
    exact fun key => Or.inr ⟨by simp [Mentions], rfl⟩
  | cons item items ih =>
    rw [setItems_cons] at h
    obtain ⟨next, first, rest⟩ := bind_eq_ok h
    intro key
    rcases ih rest key with ⟨front, later, back, s, rfl, tells, same, last, value⟩ | ⟨none, kept⟩
    · exact Or.inl ⟨item :: front, later, back, s, rfl, tells, same, last, value⟩
    · rcases setting_of_setItem first key with ⟨s, tells, same, sets⟩ | ⟨silent, unchanged⟩
      · have value : o.setting key = s := by rw [kept, sets start next first]
        exact Or.inl ⟨[], item, items, s, rfl, tells, same, none, value⟩
      · refine Or.inr ⟨?_, by rw [kept, unchanged]⟩
        rw [mentions_cons, not_or]
        exact ⟨silent, none⟩

/-- Two starts lead to the same value of a key that they agree on or that is mentioned. -/
theorem setting_of_setItems {first second one two : Options} {items : List String}
    (hone : first.setItems items = .ok one) (htwo : second.setItems items = .ok two) (key : Key)
    (agree : first.setting key = second.setting key ∨ Mentions items key) :
    one.setting key = two.setting key := by
  induction items generalizing first second with
  | nil =>
    cases hone
    cases htwo
    rcases agree with same | ⟨item, member, _⟩
    · exact same
    · cases member
  | cons item items ih =>
    rw [setItems_cons] at hone htwo
    obtain ⟨next, stepOne, restOne⟩ := bind_eq_ok hone
    obtain ⟨other, stepTwo, restTwo⟩ := bind_eq_ok htwo
    apply ih restOne restTwo
    rcases setting_of_setItem stepOne key with ⟨s, _, _, sets⟩ | ⟨silent, unchanged⟩
    · exact Or.inl (by rw [sets _ _ stepOne, sets _ _ stepTwo])
    · rcases setting_of_setItem stepTwo key with ⟨s, tells, same, _⟩ | ⟨_, unchangedToo⟩
      · exact absurd ⟨s, tells, same⟩ silent
      · rcases agree with same | mentioned
        · exact Or.inl (by rw [unchanged, unchangedToo, same])
        · exact Or.inr (((mentions_cons item items key).mp mentioned).resolve_left silent)

/-- How an option string with some items is read. -/
structure ReadBy (p : String) (items : List String) : Prop where
  joined : Joined ',' p items
  accepted : (∃ o, parse p = .ok o) ↔ ∀ item ∈ items, Accepted item
  latest : ∀ o, parse p = .ok o → Latest {} items o
  refused : ∀ r, parse p = .error r ↔ ∃ front item back, items = front ++ item :: back ∧
    (∀ other ∈ front, Accepted other) ∧ Offends item r

/-- How two option strings with a comma between them are read: the second overrides the first
where it mentions a key. -/
structure ReadTogether (p q : String) : Prop where
  firstRefused : ∀ r, parse p = .error r → parse (p ++ "," ++ q) = .error r
  secondRefused : ∀ o r, parse p = .ok o → parse q = .error r → parse (p ++ "," ++ q) = .error r
  overridden : ∀ o later, parse p = .ok o → parse q = .ok later →
    ∃ both, parse (p ++ "," ++ q) = .ok both ∧ ∀ items, Joined ',' q items → ∀ key,
      (Mentions items key → both.setting key = later.setting key) ∧
        (¬ Mentions items key → both.setting key = o.setting key)

theorem readBy_pieces (p : String) : ReadBy p (pieces ',' p) where
  joined := joined_pieces ',' p
  accepted := setItems_ok_iff {} (pieces ',' p)
  latest _ h := latest_of_setItems h
  refused r := setItems_eq_error_iff {} (pieces ',' p) r

/-- The items of the second string are applied to what the first one gives. -/
theorem parse_append (p q : String) :
    parse (p ++ "," ++ q) = (parse p).bind fun o => o.setItems (pieces ',' q) := by
  rw [parse, show "," = String.singleton ',' from rfl, pieces_append, setItems_append, parse]

theorem readTogether (p q : String) : ReadTogether p q where
  firstRefused r refused := by rw [parse_append, refused, Except.bind]
  secondRefused o r first refused := by
    rw [parse_append, first, Except.bind, setItems_eq_error_iff]
    exact ((readBy_pieces q).refused r).mp refused
  overridden o later first second := by
    obtain ⟨both, ok⟩ := (setItems_ok_iff o _).mpr ((readBy_pieces q).accepted.mp ⟨later, second⟩)
    refine ⟨both, by rw [parse_append, first, Except.bind, ok], ?_⟩
    intro items joined key
    rw [joined.pieces_eq] at ok
    rw [parse, joined.pieces_eq] at second
    refine ⟨fun mentioned => setting_of_setItems ok second key (Or.inr mentioned), ?_⟩
    intro unmentioned
    rcases latest_of_setItems ok key with ⟨front, item, back, s, rfl, tells, same, _⟩ | ⟨_, kept⟩
    · exact absurd ⟨item, by simp, s, tells, same⟩ unmentioned
    · exact kept

/-- Option strings are read by the grammar of their items, and one after the other. -/
theorem parse_grammar (p : String) :
    (∃ items, ReadBy p items) ∧ ∀ q, ReadTogether p q :=
  ⟨⟨_, readBy_pieces p⟩, readTogether p⟩

end RpcScaffold.Options
