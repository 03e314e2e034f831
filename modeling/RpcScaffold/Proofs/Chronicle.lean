import RpcScaffold.Proofs.ReferencedTypes
import RpcScaffold.Proofs.Verdicts

/-!
# What the log of a run tells

The three stages of a run can be read off its log. First come the files that were added to the
catalog, each with the number of types that it added; then the services that were resolved, each
with the types that it found and those that it missed; and then the modules that were written.
A stage begins when the one before it has been completed for all files, so the events of two
stages never mix. This holds for runs that fail as well, up to the item at which they do. A file
that fails leaves no event, although it may have added types; a service that fails leaves the
types that it found, but not those that it missed.

The events of the formatter belong to the last stage. Which of them there are is not said here.
-/
namespace RpcScaffold

def Report.during (report : Report) (stage : Stage) : List Event :=
  report.log.filter (·.stage = stage)

theorem Report.during_of_blocks {report : Report} {first second third : List Event}
    (log : report.log = first ++ second ++ third) (catalog : ∀ e ∈ first, e.stage = .catalog)
    (service : ∀ e ∈ second, e.stage = .service) (run : ∀ e ∈ third, e.stage = .run) :
    report.during .catalog = first ∧ report.during .service = second ∧
      report.during .run = third := by
  have own : ∀ {block : List Event} {stage : Stage}, (∀ e ∈ block, e.stage = stage) →
      block.filter (·.stage = stage) = block := by
    intro block stage all
    exact List.filter_eq_self.mpr fun e he => decide_eq_true (all e he)
  have other : ∀ {block : List Event} {stage another : Stage}, (∀ e ∈ block, e.stage = stage) →
      stage ≠ another → block.filter (·.stage = another) = [] := by
    intro block stage another all different
    refine List.filter_eq_nil_iff.mpr fun e he => ?_
    rw [all e he]
    simpa using different
  simp only [during, log, List.filter_append]
  refine ⟨?_, ?_, ?_⟩
  · rw [own catalog, other service (by decide), other run (by decide)]
    simp
  · rw [own service, other catalog (by decide), other run (by decide)]
    simp
  · rw [own run, other catalog (by decide), other service (by decide)]
    simp

theorem Report.filter_info (report : Report) :
    report.log.filter (·.level = .info) = (report.during .run).filter (·.level = .info) := by
  rw [during, List.filter_filter]
  congr 1
  funext e
  cases e <;> rfl

namespace Catalog

/-- Files that are added completely one after the other, with the catalog that they lead to and
one event for each, which has the number of types by which the catalog grew. -/
inductive Registers : Catalog → List SchemaFile → Catalog → List Event → Prop where
  | none (c : Catalog) : Registers c [] c []
  | file {c next last : Catalog} {f : SchemaFile} {files : List SchemaFile} {origin : Origin}
    {count : Nat} {events : List Event} (added : (c.addFile f).result = .ok origin)
    (state : (c.addFile f).state = next)
    (growth : next.entries.length = c.entries.length + count)
    (others : Registers next files last events) :
    Registers c (f :: files) last (.registered count f.name :: events)

theorem Registers.state_eq {c last : Catalog} {files : List SchemaFile} {events : List Event}
    (h : Registers c files last events) : (c.addFiles files).state = last := by
  induction h with
  | none c => rfl
  | file added state growth others ih =>
    rw [addFiles, Outcome.state_andThen_of_ok added, state]
    exact ih

theorem Registers.stage {c last : Catalog} {files : List SchemaFile} {events : List Event}
    (h : Registers c files last events) : ∀ e ∈ events, e.stage = .catalog := by
  induction h with
  | none c => exact List.forall_mem_nil _
  | file added state growth others ih => exact List.forall_mem_cons.mpr ⟨rfl, ih⟩

theorem addAll_reports (c : Catalog) (es : List Entry) :
    (c.addAll es).log = [] ∧
      ((c.addAll es).result = .ok () → (c.addAll es).state.entries = c.entries ++ es) := by
  induction es generalizing c with
  | nil => exact ⟨rfl, fun _ => (List.append_nil _).symm⟩
  | cons e es ih =>
    cases found : c.find? e.name with
    | some first =>
      simp only [addAll, add, found]
      exact ⟨rfl, fun ok => by cases ok⟩
    | none =>
      simp only [addAll, add, found]
      obtain ⟨log, state⟩ := ih ⟨c.entries ++ [e]⟩
      refine ⟨log, fun ok => ?_⟩
      rw [state ok, List.append_assoc]
      rfl

/-- A file that is added completely leaves one event, and any other leaves none. -/
theorem addFile_reports (c : Catalog) (f : SchemaFile) :
    (∃ origin, (c.addFile f).result = .ok origin ∧
      (c.addFile f).state.entries.length = c.entries.length + (entriesOf f).length ∧
      (c.addFile f).log = [.registered (entriesOf f).length f.name]) ∨
    ∃ fault, (c.addFile f).result = .error fault ∧ (c.addFile f).log = [] := by
  obtain ⟨log, state⟩ := c.addAll_reports (entriesOf f)
  cases result : (c.addAll (entriesOf f)).result with
  | error fault =>
    refine Or.inr ⟨fault, ?_, ?_⟩
    · simp only [addFile, Outcome.andThen, result]
    · simp only [addFile, Outcome.andThen, result, log]
  | ok value =>
    refine Or.inl ⟨f.origin, ?_, ?_, ?_⟩
    · simp only [addFile, Outcome.andThen, result]
      rfl
    · rw [← List.length_append, ← state result]
      simp only [addFile, Outcome.andThen, result]
    · simp only [addFile, Outcome.andThen, result, log, List.nil_append]

/-- Files are added completely up to the first that fails, and this is what the log tells. -/
theorem addFiles_reports (c : Catalog) (files : List SchemaFile) :
    ((c.addFiles files).result = .ok () ∧
      Registers c files (c.addFiles files).state (c.addFiles files).log) ∨
    ∃ done f back reached fault, files = done ++ f :: back ∧
      Registers c done reached (c.addFiles files).log ∧
      (reached.addFile f).result = .error fault ∧ (c.addFiles files).result = .error fault := by
  induction files generalizing c with
  | nil => exact Or.inl ⟨rfl, .none c⟩
  | cons f files ih =>
    rcases c.addFile_reports f with ⟨origin, added, growth, log⟩ | ⟨fault, failed, log⟩
    · simp only [addFiles, Outcome.andThen, added, log, List.singleton_append]
      rcases ih (c.addFile f).state with
        ⟨result, all⟩ | ⟨done, g, back, reached, fault, rfl, before, failed, result⟩
      · exact Or.inl ⟨result, .file added rfl growth all⟩
      · exact Or.inr ⟨f :: done, g, back, reached, fault, rfl, .file added rfl growth before,
          failed, result⟩
    · refine Or.inr ⟨[], f, files, c, fault, rfl, ?_, failed, ?_⟩
      · simp only [addFiles, Outcome.andThen, failed, log]
        exact .none c
      · simp only [addFiles, Outcome.andThen, failed]

end Catalog

namespace Draft

/-- The types that a service refers to and that a catalog has, by first reference. -/
def knownReferences (c : Catalog) (d : Draft) : List String :=
  d.service.references.eraseDups.filter (· ∈ c.names)

def unknownReferences (c : Catalog) (d : Draft) : List String :=
  d.service.references.eraseDups.filter (· ∉ c.names)

/-- One event for every type that a draft finds. -/
def findings (c : Catalog) (d : Draft) : List Event :=
  (d.knownReferences c).map (.depends d.names.full)

/-- One event for all types that a draft misses, if there are any. -/
def complaints (c : Catalog) (d : Draft) : List Event :=
  if (d.unknownReferences c).isEmpty then []
  else [.unknownTypes d.names.full (d.unknownReferences c)]

/-- All that a draft tells when it is resolved. -/
def account (c : Catalog) (d : Draft) : List Event := d.findings c ++ d.complaints c

theorem findings_stage (c : Catalog) (d : Draft) : ∀ e ∈ d.findings c, e.stage = .service := by
  intro e he
  obtain ⟨name, _, rfl⟩ := List.mem_map.mp he
  rfl

theorem accounts_stage (c : Catalog) (ds : List Draft) :
    ∀ e ∈ ds.flatMap (account c), e.stage = .service := by
  intro e he
  obtain ⟨d, _, told⟩ := List.mem_flatMap.mp he
  rcases List.mem_append.mp told with found | missed
  · exact d.findings_stage c e found
  · rw [complaints] at missed
    split at missed
    · cases missed
    · rw [List.mem_singleton.mp missed]
      rfl

/-- The events by which a draft came to know its dependencies. -/
def dependencyEvents (d : Draft) : List Event := d.knownNames.map (.depends d.names.full)

variable {c : Catalog} {d : Draft}

theorem SameBut.names {later : Draft} (h : SameBut d later) : later.names = d.names := by
  obtain ⟨_, _, rfl⟩ := h
  rfl

/-- Looking up a type is logged exactly when it becomes a dependency. -/
theorem require_reports (c : Catalog) (phase : d.phase = .constructed) (name place : String) :
    (d.require c name place).state.dependencyEvents =
      d.dependencyEvents ++ (d.require c name place).log := by
  rcases require_cases c phase name place with
    ⟨_, same⟩ | ⟨_, _, same⟩ | ⟨_, _, same⟩ | ⟨_, e, found, _, same⟩
  · rw [same]
    exact (List.append_nil _).symm
  · rw [same]
    change (d.noteUnknown name place).dependencyEvents = _
    rw [dependencyEvents, knownNames_noteUnknown, (noteUnknown_sameBut d name place).names]
    exact (List.append_nil _).symm
  · rw [same]
    exact (List.append_nil _).symm
  · obtain ⟨_, rfl⟩ := Catalog.mem_of_find? found
    rw [same]
    simp only [dependencyEvents, knownNames, List.map_append, List.map_cons, List.map_nil]
    rfl

theorem requireAll_reports (c : Catalog) (phase : d.phase = .constructed)
    (xs : List (String × String)) :
    (d.requireAll c xs).state.dependencyEvents =
      d.dependencyEvents ++ (d.requireAll c xs).log := by
  induction xs generalizing d with
  | nil => exact (List.append_nil _).symm
  | cons x xs ih =>
    have first := require_reports c phase x.1 x.2
    have rest := ih ((require_sameBut c phase x.1 x.2).phase.trans phase)
    cases result : (d.require c x.1 x.2).result with
    | error fault => simpa only [requireAll, Outcome.andThen, result] using first
    | ok value =>
      simp only [requireAll, Outcome.andThen, result]
      rw [rest, first, List.append_assoc]

theorem unknownEvents_found (d : Draft) (c : Catalog) :
    (d.found c d.service.mentions).unknownEvents = d.complaints c := by
  have names : (d.found c d.service.mentions).unknown.map Prod.fst = d.unknownReferences c :=
    unknownNames_found d c d.service
  rw [unknownEvents, complaints, ← names, List.isEmpty_map]
  rfl

theorem adoptMethods_reports (d : Draft) :
    d.adoptMethods.state.knownNames = d.knownNames ∧
      (d.adoptMethods.result = .ok () ∧ d.adoptMethods.log = d.unknownEvents ∨
        ∃ fault, d.adoptMethods.result = .error fault ∧ d.adoptMethods.log = []) := by
  cases checked : claimMethods d.names.serverClass d.declaredMethods with
  | error fault =>
    rw [adoptMethods_of_error checked]
    exact ⟨rfl, Or.inr ⟨fault, rfl, rfl⟩⟩
  | ok bound =>
    rw [adoptMethods_of_ok checked]
    exact ⟨rfl, Or.inl ⟨rfl, rfl⟩⟩

section
variable (settled : c.Settled) (s : Service) (origin : Origin)
include settled

theorem log_requireAll_ofService :
    ((ofService s origin).requireAll c s.mentions).log = (ofService s origin).findings c := by
  have reports := requireAll_reports c (d := ofService s origin) rfl s.mentions
  have known := knownNames_found (ofService s origin) c s
  rw [(requireAll_ofService_of_settled settled s origin).2, dependencyEvents, known] at reports
  exact reports.symm

/-- A fresh draft tells which types it found, and when it is resolved also which it missed. -/
theorem resolve_reports :
    ((ofService s origin).resolve c).state.knownNames = (ofService s origin).knownReferences c ∧
    (((ofService s origin).resolve c).result = .ok () ∧
        ((ofService s origin).resolve c).log = (ofService s origin).account c ∨
      ∃ fault, ((ofService s origin).resolve c).result = .error fault ∧
        ((ofService s origin).resolve c).log = (ofService s origin).findings c) := by
  obtain ⟨lookedUp, found⟩ := requireAll_ofService_of_settled settled s origin
  have split : (ofService s origin).resolve c =
      ((ofService s origin).requireAll c s.mentions).andThen fun d _ => d.adoptMethods :=
    resolve_eq c rfl
  rw [split, Outcome.state_andThen_of_ok lookedUp, Outcome.result_andThen_of_ok lookedUp,
    Outcome.log_andThen_of_ok lookedUp, found, log_requireAll_ofService settled s origin]
  have unknown := unknownEvents_found (ofService s origin) c
  obtain ⟨known, ⟨ok, log⟩ | ⟨fault, failed, log⟩⟩ :=
    adoptMethods_reports ((ofService s origin).found c s.mentions)
  · refine ⟨known.trans (knownNames_found (ofService s origin) c s), Or.inl ⟨ok, ?_⟩⟩
    exact congrArg _ (log.trans unknown)
  · refine ⟨known.trans (knownNames_found (ofService s origin) c s), Or.inr ⟨fault, failed, ?_⟩⟩
    rw [log, List.append_nil]

end

end Draft

namespace ServiceModule

/-- Modules are resolved as their drafts are, one after the other. -/
theorem onEach_resolve (c : Catalog) (ms : List ServiceModule) :
    (Outcome.onEach (·.resolve c) ms).result =
        (Outcome.onEach (·.resolve c) (ms.flatMap drafts)).result ∧
      (Outcome.onEach (·.resolve c) ms).log =
        (Outcome.onEach (·.resolve c) (ms.flatMap drafts)).log := by
  induction ms with
  | nil => exact ⟨rfl, rfl⟩
  | cons m ms ih =>
    rw [List.flatMap_cons]
    cases own : (Outcome.onEach (·.resolve c) m.drafts).result with
    | error fault =>
      obtain ⟨result, log⟩ := Outcome.onEach_append_of_error own (ms.flatMap drafts)
      simp only [Outcome.onEach, resolve, own, result, log]
      exact ⟨trivial, trivial⟩
    | ok value =>
      obtain ⟨result, log⟩ := Outcome.onEach_append_of_ok own (ms.flatMap drafts)
      rw [result, log]
      simp only [Outcome.onEach, resolve, own, ← ih.1, ← ih.2]
      exact ⟨trivial, trivial⟩

end ServiceModule

/-- Why a command has no output is told as an error of the run. -/
theorem Formatter.log_output {command : Command} {reply : Reply} {log : List Event}
    (h : command.output reply = .error log) : ∀ e ∈ log, e.stage = .run ∧ e.level = .error := by
  cases reply with
  | unavailable reason =>
    cases h
    exact List.forall_mem_singleton.mpr ⟨rfl, rfl⟩
  | exited status stdout stderr =>
    rw [Command.output] at h
    split at h
    · cases h
      exact List.forall_mem_cons.mpr ⟨⟨rfl, rfl⟩, List.forall_mem_singleton.mpr ⟨rfl, rfl⟩⟩
    · cases h

theorem Formatter.log_format (replies : Replies) (raw : String) :
    ∀ e ∈ (format replies raw).log, e.stage = .run ∧ e.level = .error := by
  cases sorting : Command.sortImports.output (replies.sortImports raw) with
  | error log =>
    simp only [format, sorting]
    exact log_output sorting
  | ok stdout =>
    simp only [format, sorting]
    generalize (if stdout = "" then raw else stdout) = sorted
    cases final : Command.layOut.output (replies.layOut sorted) with
    | error log =>
      simp only [layOut, final]
      exact log_output final
    | ok text =>
      simp only [layOut, final]
      exact List.forall_mem_nil _

namespace Compilation

theorem log_finish (m : ServiceModule) (replies : Formatter.Replies) (text : String) :
    ∀ e ∈ (finish m replies text).log, e.stage = .run ∧ e.level = .error := by
  rw [finish]
  split
  · exact Formatter.log_format replies text
  · exact List.forall_mem_nil _

/-- Modules are written up to the first that fails; each of them is told once, whatever the
formatter adds to it. -/
theorem writeModules_reports (replies : Formatter.Replies) (ms : List ServiceModule)
    (outputs : Outputs) :
    (∀ e ∈ (writeModules replies ms outputs).log, e.stage = .run) ∧
    ∃ done rest, ms = done ++ rest ∧
      (writeModules replies ms outputs).log.filter (·.level = .info) =
        done.map (fun m => .generated m.outputFile m.drafts.length) ∧
      (rest = [] ∨ ∃ fault, (writeModules replies ms outputs).result = .error fault) := by
  induction ms generalizing outputs with
  | nil => exact ⟨List.forall_mem_nil _, [], [], rfl, rfl, Or.inl rfl⟩
  | cons m ms ih =>
    cases generated : m.generate.result with
    | error fault =>
      simp only [writeModules, generated]
      exact ⟨List.forall_mem_nil _, [], m :: ms, rfl, rfl, Or.inr ⟨fault, rfl⟩⟩
    | ok text =>
      simp only [writeModules, generated]
      have own := log_finish m replies text
      have quiet : (finish m replies text).log.filter (·.level = .info) = [] :=
        List.filter_eq_nil_iff.mpr fun e he => by simp [(own e he).2]
      obtain ⟨stage, done, rest, rfl, told, complete⟩ :=
        ih (outputs.put m.outputFile (finish m replies text).text)
      refine ⟨?_, m :: done, rest, rfl, ?_, complete⟩
      · intro e he
        rcases List.mem_append.mp he with formatting | he
        · exact (own e formatting).1
        rcases List.mem_cons.mp he with rfl | later
        · rfl
        · exact stage e later
      · rw [List.filter_append, quiet, List.nil_append, List.filter_cons_of_pos (by rfl), told,
          List.map_cons]

end Compilation

namespace Request

/-- The drafts of a run, in the order in which they are resolved. -/
def drafts (r : Request) : List Draft := r.modules.flatMap ServiceModule.drafts

/-- The event of a file that a module was generated for. -/
def generation (r : Request) (u : SchemaFile) : Event :=
  .generated (Name.moduleStem u.name r.options.moduleSuffix ++ Vocabulary.sourceSuffix)
    u.services.length

/-- The events that a request allows, by stage, together with the result. A stage that is not
reached has none. -/
inductive Chronicle (r : Request) :
    Except Fault Outputs → List Event → List Event → List Event → Prop where
  | stoppedAdding {done back : List SchemaFile} {f : SchemaFile} {c : Catalog}
    {registrations : List Event} {fault : Fault} (files : r.files = done ++ f :: back)
    (added : Catalog.Registers {} done c registrations)
    (fails : (c.addFile f).result = .error fault) :
    Chronicle r (.error fault) registrations [] []
  | stoppedResolving {c : Catalog} {registrations : List Event} {done back : List Draft}
    {d : Draft} {fault : Fault} (added : Catalog.Registers {} r.files c registrations)
    (found : ∀ t ∈ r.drafts,
      (t.resolve c.settleAll).state.knownNames = t.knownReferences c.settleAll)
    (services : r.drafts = done ++ d :: back)
    (before : ∀ t ∈ done, (t.resolve c.settleAll).result = .ok ())
    (fails : (d.resolve c.settleAll).result = .error fault) :
    Chronicle r (.error fault) registrations
      (done.flatMap (Draft.account c.settleAll) ++ d.findings c.settleAll) []
  | resolved {c : Catalog} {registrations writing : List Event} {done rest : List SchemaFile}
    {result : Except Fault Outputs} (added : Catalog.Registers {} r.files c registrations)
    (found : ∀ t ∈ r.drafts,
      (t.resolve c.settleAll).state.knownNames = t.knownReferences c.settleAll)
    (succeeds : ∀ t ∈ r.drafts, (t.resolve c.settleAll).result = .ok ())
    (units : r.units = done ++ rest)
    (written : writing.filter (·.level = .info) = done.map r.generation)
    (complete : rest = [] ∨ ∃ fault, result = .error fault) :
    Chronicle r result registrations (r.drafts.flatMap (Draft.account c.settleAll)) writing

theorem mem_drafts {r : Request} {d : Draft} (h : d ∈ r.drafts) :
    ∃ u ∈ r.units, ∃ s ∈ u.declaredServices, d = .ofService s u.origin := by
  obtain ⟨m, hm, hd⟩ := List.mem_flatMap.mp h
  obtain ⟨u, hu, rfl⟩ := List.mem_map.mp hm
  obtain ⟨s, hs, rfl⟩ := List.mem_map.mp hd
  exact ⟨u, hu, s, hs, rfl⟩

theorem draft_reports {r : Request} {c : Catalog} (settled : c.Settled) {d : Draft}
    (h : d ∈ r.drafts) :
    (d.resolve c).state.knownNames = d.knownReferences c ∧
      ((d.resolve c).result = .ok () ∧ (d.resolve c).log = d.account c ∨
        ∃ fault, (d.resolve c).result = .error fault ∧ (d.resolve c).log = d.findings c) := by
  obtain ⟨u, _, s, _, rfl⟩ := mem_drafts h
  exact Draft.resolve_reports settled s u.origin

/-- Where all types are declared, no draft has anything to complain of. -/
theorem complaints_eq_nil {r : Request} (known : ∀ u ∈ r.units, r.Known u) {c : Catalog}
    (names : c.names = r.declaredNames) {d : Draft} (h : d ∈ r.drafts) : d.complaints c = [] := by
  obtain ⟨u, hu, s, hs, rfl⟩ := mem_drafts h
  have none : (Draft.ofService s u.origin).unknownReferences c = [] := by
    refine List.filter_eq_nil_iff.mpr fun name referred => ?_
    have mentioned : name ∈ s.mentions.map Prod.fst := by
      rw [s.names_mentions]
      exact List.mem_eraseDups.mp referred
    obtain ⟨x, hx, rfl⟩ := List.mem_map.mp mentioned
    have declared := known u hu x (List.mem_flatMap.mpr ⟨s, hs, hx⟩)
    simpa [names] using declared
  rw [Draft.complaints, none]
  rfl

end Request

namespace Compilation

open Request

theorem log_of_resolved {c : Catalog} (settled : c.Settled) {r : Request} {done : List Draft}
    (drafts : ∀ d ∈ done, d ∈ r.drafts) (succeeds : ∀ d ∈ done, (d.resolve c).result = .ok ()) :
    done.flatMap (fun d => (d.resolve c).log) = done.flatMap (Draft.account c) := by
  rw [List.flatMap_def, List.flatMap_def]
  congr 1
  apply List.map_congr_left
  intro d hd
  obtain ⟨_, ⟨_, log⟩ | ⟨fault, failed, _⟩⟩ := draft_reports settled (drafts d hd)
  · exact log
  · rw [succeeds d hd] at failed
    cases failed

theorem names_of_registers {r : Request} (distinct : r.declaredNames.Nodup) {c : Catalog}
    {events : List Event} (h : Catalog.Registers {} r.files c events) :
    c.names = r.declaredNames := by
  rw [← h.state_eq, (registered_of_nodup distinct).2, r.names_declaredTypes]

/-- Resolved modules are written under the names of their files. -/
theorem writeModules_of_resolved (r : Request) (c : Catalog)
    (resolved : (Outcome.onEach (·.resolve c) r.modules).result = .ok ()) :
    let report := writeModules r.formatter (Outcome.onEach (·.resolve c) r.modules).state []
    (∀ e ∈ report.log, e.stage = .run) ∧
    ∃ done rest, r.units = done ++ rest ∧
      report.log.filter (·.level = .info) = done.map r.generation ∧
      (rest = [] ∨ ∃ fault, report.result = .error fault) := by
  have state : (Outcome.onEach (·.resolve c) r.modules).state =
      r.units.map fun u => ((r.moduleOf u).resolve c).state := by
    rcases Outcome.onEach_cases (·.resolve c) r.modules with
      ⟨all, _, _⟩ | ⟨_, _, _, fault, _, _, _, failed, _⟩
    · rw [(Outcome.onEach_of_ok _ _ all).2, r.modules_eq, List.map_map]
      rfl
    · rw [resolved] at failed
      cases failed
  rw [state]
  obtain ⟨stage, written, unwritten, split, told, complete⟩ :=
    writeModules_reports r.formatter (r.units.map fun u => ((r.moduleOf u).resolve c).state) []
  obtain ⟨done, rest, units, rfl, rfl⟩ := List.map_eq_append_iff.mp split
  refine ⟨stage, done, rest, units, ?_, ?_⟩
  · rw [told, List.map_map]
    apply List.map_congr_left
    intro u _
    have length : ((r.moduleOf u).resolve c).state.drafts.length = u.services.length := by
      refine (Outcome.length_onEach _ _).trans ?_
      simp [moduleOf, ServiceModule.ofServices, SchemaFile.declaredServices]
    simp only [Function.comp_apply, length]
    rfl
  · exact complete.imp_left List.map_eq_nil_iff.mp

/-- Drafts are resolved up to the first that fails, whichever modules they are in. -/
theorem resolving_reports (r : Request) {c : Catalog} (settled : c.Settled) :
    ((∀ t ∈ r.drafts, (t.resolve c).result = .ok ()) ∧
      (Outcome.onEach (·.resolve c) r.modules).result = .ok () ∧
      (Outcome.onEach (·.resolve c) r.modules).log = r.drafts.flatMap (Draft.account c)) ∨
    ∃ done d back fault, r.drafts = done ++ d :: back ∧
      (∀ t ∈ done, (t.resolve c).result = .ok ()) ∧ (d.resolve c).result = .error fault ∧
      (Outcome.onEach (·.resolve c) r.modules).result = .error fault ∧
      (Outcome.onEach (·.resolve c) r.modules).log =
        done.flatMap (Draft.account c) ++ d.findings c := by
  obtain ⟨sameResult, sameLog⟩ := ServiceModule.onEach_resolve c r.modules
  rw [sameResult, sameLog]
  rcases Outcome.onEach_cases (·.resolve c) r.drafts with
    ⟨succeeds, result, log⟩ | ⟨done, d, back, fault, services, before, fails, result, log⟩
  · exact Or.inl ⟨succeeds, result, log.trans (log_of_resolved settled (fun _ h => h) succeeds)⟩
  · refine Or.inr ⟨done, d, back, fault, services, before, fails, result, log.trans ?_⟩
    have members : ∀ t ∈ done ++ d :: back, t ∈ r.drafts := fun t ht => services ▸ ht
    have first := log_of_resolved settled
      (fun t ht => members t (List.mem_append_left _ ht)) before
    have last : (d.resolve c).log = d.findings c := by
      obtain ⟨_, ⟨ok, _⟩ | ⟨_, _, log⟩⟩ :=
        draft_reports settled (members d (List.mem_append_right _ List.mem_cons_self))
      · rw [fails] at ok
        cases ok
      · exact log
    rw [first, last]

theorem run_blocks (r : Request) :
    ∃ first second third, (run r).log = first ++ second ++ third ∧
      (∀ e ∈ first, e.stage = .catalog) ∧ (∀ e ∈ second, e.stage = .service) ∧
      (∀ e ∈ third, e.stage = .run) ∧ r.Chronicle (run r).result first second third := by
  rcases Catalog.addFiles_reports {} r.files with
    ⟨ok, added⟩ | ⟨done, f, back, reached, fault, files, before, failed, result⟩
  · -- Every file was added, so what the drafts are resolved against holds all their types.
    generalize state : (Catalog.addFiles {} r.files).state = c at added
    have found := fun t ht => (draft_reports (r := r) (d := t) c.settleAll_settled ht).1
    rcases resolving_reports r c.settleAll_settled with
      ⟨succeeds, resolved, told⟩ | ⟨done, d, back, fault, services, before, fails, stopped, told⟩
    · obtain ⟨stage, done, rest, units, written, complete⟩ :=
        writeModules_of_resolved r c.settleAll resolved
      simp only [run, ok, state, resolved, told]
      exact ⟨_, _, _, rfl, added.stage, Draft.accounts_stage _ _, stage,
        .resolved added found succeeds units written complete⟩
    · simp only [run, ok, state, stopped, told]
      refine ⟨_, _, [], (List.append_nil _).symm, added.stage, ?_, List.forall_mem_nil _,
        .stoppedResolving added found services before fails⟩
      intro e he
      rcases List.mem_append.mp he with early | late
      · exact Draft.accounts_stage _ _ e early
      · exact d.findings_stage _ e late
  · simp only [run, result]
    exact ⟨_, [], [], by simp, before.stage, List.forall_mem_nil _, List.forall_mem_nil _,
      .stoppedAdding files before failed⟩

/-- Whatever comes of a run, its log has a block of events for every stage, one after the other,
and these events are those of the files, services and modules that the run got through. A run
that succeeds tells every generated module once, and no unknown type. -/
theorem run_chronicle (r : Request) :
    (run r).log = (run r).during .catalog ++ (run r).during .service ++ (run r).during .run ∧
    r.Chronicle (run r).result ((run r).during .catalog) ((run r).during .service)
      ((run r).during .run) ∧
    ∀ outputs, (run r).result = .ok outputs →
      (run r).log.filter (·.level = .info) = r.units.map r.generation ∧
      ∀ service types, Event.unknownTypes service types ∉ (run r).log := by
  obtain ⟨first, second, third, log, catalog, service, run, chronicle⟩ := run_blocks r
  obtain ⟨rfl, rfl, rfl⟩ := Report.during_of_blocks log catalog service run
  refine ⟨log, chronicle, ?_⟩
  intro outputs succeeded
  obtain ⟨resolvable, sound⟩ := sound_of_run succeeded
  rw [succeeded] at chronicle
  generalize block : (Compilation.run r).during .service = events at chronicle
  cases chronicle with
  | resolved added found succeeds units written complete =>
    constructor
    · rcases complete with rfl | ⟨fault, failed⟩
      · rw [Report.filter_info, written, units, List.append_nil]
      · cases failed
    · intro service types member
      have told : Event.unknownTypes service types ∈ (Compilation.run r).during .service :=
        List.mem_filter.mpr ⟨member, rfl⟩
      -- The catalog has all declared names, and the files mention no others.
      have names := (Catalog.names_settleAll _).trans (names_of_registers resolvable.distinct added)
      rw [block] at told
      obtain ⟨d, hd, told⟩ := List.mem_flatMap.mp told
      rw [Draft.account, complaints_eq_nil (fun u hu => (sound u hu).1) names hd,
        List.append_nil] at told
      obtain ⟨name, _, same⟩ := List.mem_map.mp told
      cases same

end Compilation

end RpcScaffold
