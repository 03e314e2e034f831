import RpcScaffold.Proofs.StoredTexts

/-!
# Runs with and without formatting

Formatting is the last thing that happens to a text, and nothing of a run depends on what
comes of it. A run that formats therefore ends with the fault of a run that does not, or
stores the same names with every text formatted, also where a name is stored twice. The
formatter is called for every text that was generated, and a fault of a later module does not
take the calls back. What the formatter replies is arbitrary and may depend on its input.
-/
namespace RpcScaffold

namespace Formatter

/-- Sorting could be started, with any exit status, and layout is given the text that came of
it, or the raw text when nothing did. -/
def Sorts (replies : Replies) (raw sorted : String) : Prop :=
  ∃ status stdout stderr, replies.sortImports raw = .exited status stdout stderr ∧
    sorted = if stdout = "" then raw else stdout

/-- What formatting may make of a raw text, and the calls that it takes. -/
inductive Formats (replies : Replies) (raw : String) : String → List Call → Prop where
  | notSorted {reason : String} (h : replies.sortImports raw = .unavailable reason) :
    Formats replies raw raw [⟨.sortImports, raw⟩]
  | notStarted {sorted reason : String} (first : Sorts replies raw sorted)
    (h : replies.layOut sorted = .unavailable reason) :
    Formats replies raw raw [⟨.sortImports, raw⟩, ⟨.layOut, sorted⟩]
  | failed {sorted : String} {status : Int} {stdout stderr : String}
    (first : Sorts replies raw sorted) (h : replies.layOut sorted = .exited status stdout stderr)
    (nonzero : status ≠ 0) :
    Formats replies raw raw [⟨.sortImports, raw⟩, ⟨.layOut, sorted⟩]
  | formatted {sorted stdout stderr : String} (first : Sorts replies raw sorted)
    (h : replies.layOut sorted = .exited 0 stdout stderr) :
    Formats replies raw stdout [⟨.sortImports, raw⟩, ⟨.layOut, sorted⟩]

/-- Sorting has output whenever it was started. -/
theorem output_sortImports (status : Int) (stdout stderr : String) :
    Command.sortImports.output (.exited status stdout stderr) = .ok stdout := by
  simp [Command.output, Command.strict]

/-- Layout has output exactly when it ended well. -/
theorem output_layOut (status : Int) (stdout stderr : String) :
    Command.layOut.output (.exited status stdout stderr) =
      if status = 0 then .ok stdout
      else .error [.formatterFailed Command.layOut.words status, .formatterOutput stderr] := by
  by_cases zero : status = 0
  · simp [Command.output, zero]
  · simp [Command.output, Command.strict, zero]

theorem formats_format (replies : Replies) (raw : String) :
    Formats replies raw (format replies raw).text (format replies raw).calls := by
  cases reply : replies.sortImports raw with
  | unavailable reason =>
    simp only [format, reply, Command.output]
    exact .notSorted reply
  | exited status stdout stderr =>
    simp only [format, reply, output_sortImports]
    have first : Sorts replies raw (if stdout = "" then raw else stdout) :=
      ⟨status, stdout, stderr, reply, rfl⟩
    generalize (if stdout = "" then raw else stdout) = sorted at first ⊢
    cases final : replies.layOut sorted with
    | unavailable reason => exact .notStarted first final
    | exited status stdout stderr =>
      rw [layOut, output_layOut]
      by_cases zero : status = 0
      · rw [if_pos zero]
        exact .formatted first (zero ▸ final)
      · rw [if_neg zero]
        exact .failed first final zero

end Formatter

namespace Outputs

/-- The same names with other texts. -/
def mapTexts (change : String → String) (outputs : Outputs) : Outputs :=
  outputs.map fun p => (p.1, change p.2)

theorem mapTexts_put (change : String → String) (outputs : Outputs) (name text : String) :
    (outputs.put name text).mapTexts change = (outputs.mapTexts change).put name (change text) := by
  induction outputs with
  | nil => rfl
  | cons p outputs ih =>
    obtain ⟨first, old⟩ := p
    simp only [put, mapTexts, List.map_cons]
    split
    · rfl
    · exact congrArg _ ih

end Outputs

namespace ServiceModule

def formatting (m : ServiceModule) (on : Bool) : ServiceModule :=
  { m with options := { m.options with formatOutput := on } }

theorem generate_formatting (m : ServiceModule) (on : Bool) :
    (m.formatting on).generate.result = m.generate.result := rfl

/-- The files and texts of modules, up to the first that cannot be generated. -/
def generated : List ServiceModule → List (String × String)
  | [] => []
  | m :: ms =>
    match m.generate.result with
    | .error _ => []
    | .ok text => (m.outputFile, text) :: generated ms

end ServiceModule

namespace Request

def formatting (r : Request) (on : Bool) : Request :=
  { r with options := { r.options with formatOutput := on } }

/-- The modules that a run writes, or the fault for which it writes none. -/
def resolvedModules (r : Request) : Except Fault (List ServiceModule) := do
  let registered := Catalog.addFiles {} r.files
  registered.result
  let resolved := Outcome.onEach (·.resolve registered.state.settleAll) r.modules
  resolved.result
  return resolved.state

/-- The files and texts that a run generates, in order, before it succeeds or fails. -/
def generated (r : Request) : List (String × String) :=
  match r.resolvedModules with
  | .error _ => []
  | .ok modules => ServiceModule.generated modules

theorem resolvedModules_formatting (r : Request) (on : Bool) :
    (r.formatting on).resolvedModules = r.resolvedModules.map (List.map (·.formatting on)) := by
  have modules : (r.formatting on).modules = r.modules.map (·.formatting on) := by
    simp only [Request.modules, List.map_map]
    rfl
  have files : (r.formatting on).files = r.files := rfl
  simp only [resolvedModules, modules, files]
  cases (Catalog.addFiles {} r.files).result with
  | error fault => rfl
  | ok _ =>
    generalize (Catalog.addFiles {} r.files).state.settleAll = c
    obtain ⟨result, state⟩ :=
      Outcome.onEach_map (·.resolve c) (·.formatting on) (fun m => ⟨rfl, rfl⟩) r.modules
    simp only [result, state]
    cases (Outcome.onEach (·.resolve c) r.modules).result with
    | error fault => rfl
    | ok _ => rfl

end Request

namespace Compilation

open ServiceModule

/-- A run is the writing of its modules, unless it ends before. -/
theorem run_eq (r : Request) :
    ((run r).result, (run r).calls) =
      match r.resolvedModules with
      | .error fault => (.error fault, [])
      | .ok modules =>
        ((writeModules r.formatter modules []).result,
          (writeModules r.formatter modules []).calls) := by
  cases registered : (Catalog.addFiles {} r.files).result with
  | error fault =>
    simp only [run, Request.resolvedModules, registered]
    rfl
  | ok _ =>
    cases resolved : (Outcome.onEach
        (·.resolve (Catalog.addFiles {} r.files).state.settleAll) r.modules).result with
    | error fault =>
      simp only [run, Request.resolvedModules, registered, resolved]
      rfl
    | ok _ =>
      simp only [run, Request.resolvedModules, registered, resolved]
      rfl

theorem writeModules_formatting (replies : Formatter.Replies) (ms : List ServiceModule)
    (outputs : Outputs) :
    (writeModules replies (ms.map (·.formatting true))
        (outputs.mapTexts fun t => (Formatter.format replies t).text)).result =
      (writeModules replies (ms.map (·.formatting false)) outputs).result.map
        (Outputs.mapTexts fun t => (Formatter.format replies t).text) := by
  induction ms generalizing outputs with
  | nil => rfl
  | cons m ms ih =>
    simp only [List.map_cons, writeModules, generate_formatting]
    cases m.generate.result with
    | error fault => rfl
    | ok text =>
      have stored := outputs.mapTexts_put (fun t => (Formatter.format replies t).text)
        m.outputFile text
      have rest := ih (outputs.put m.outputFile text)
      rw [stored] at rest
      exact rest

theorem calls_formatting (replies : Formatter.Replies) (ms : List ServiceModule)
    (outputs : Outputs) :
    (writeModules replies (ms.map (·.formatting true)) outputs).calls =
      (generated ms).flatMap fun p => (Formatter.format replies p.2).calls := by
  induction ms generalizing outputs with
  | nil => rfl
  | cons m ms ih =>
    simp only [List.map_cons, writeModules, generate_formatting, generated]
    cases m.generate.result with
    | error fault => rfl
    | ok text =>
      rw [List.flatMap_cons, ← ih]
      rfl

/-- Without formatting there are no calls, and the texts are stored as they were generated. -/
theorem writeModules_raw (replies : Formatter.Replies) (ms : List ServiceModule)
    (outputs : Outputs) :
    (writeModules replies (ms.map (·.formatting false)) outputs).calls = [] ∧
      ∀ final, (writeModules replies (ms.map (·.formatting false)) outputs).result = .ok final →
        final = outputs.putAll (generated ms) := by
  induction ms generalizing outputs with
  | nil =>
    refine ⟨rfl, ?_⟩
    rintro final ⟨⟩
    rfl
  | cons m ms ih =>
    simp only [List.map_cons, writeModules, generate_formatting, generated]
    cases m.generate.result with
    | error fault =>
      refine ⟨rfl, ?_⟩
      rintro final ⟨⟩
    | ok text => exact ih (outputs.put m.outputFile text)

/-- A run that formats ends with the fault of the run that does not, or with its texts
formatted one by one. The formatter is called for every text that is generated, in order and
whatever becomes of the run, and a text is kept as it is unless all of its formatting succeeds.
Under every name the run that does not format has the last text that was generated for it. -/
theorem run_formatting (r : Request) :
    (run (r.formatting true)).result = (run (r.formatting false)).result.map
        (Outputs.mapTexts fun t => (Formatter.format r.formatter t).text) ∧
      (run (r.formatting true)).calls =
        r.generated.flatMap (fun p => (Formatter.format r.formatter p.2).calls) ∧
      (run (r.formatting false)).calls = [] ∧
      (∀ outputs, (run (r.formatting false)).result = .ok outputs →
        outputs = Outputs.putAll [] r.generated ∧
          ∀ name, outputs.lookup name = r.generated.reverse.lookup name) ∧
      ∀ t, Formatter.Formats r.formatter t (Formatter.format r.formatter t).text
        (Formatter.format r.formatter t).calls := by
  have formatted := run_eq (r.formatting true)
  have raw := run_eq (r.formatting false)
  rw [r.resolvedModules_formatting] at formatted raw
  rw [Request.generated]
  cases modules : r.resolvedModules with
  | error fault =>
    rw [modules] at formatted raw
    obtain ⟨formattedResult, formattedCalls⟩ := Prod.mk.inj formatted
    obtain ⟨rawResult, rawCalls⟩ := Prod.mk.inj raw
    rw [formattedResult, rawResult]
    refine ⟨rfl, formattedCalls, rawCalls, ?_, Formatter.formats_format r.formatter⟩
    rintro outputs ⟨⟩
  | ok ms =>
    rw [modules] at formatted raw
    obtain ⟨formattedResult, formattedCalls⟩ := Prod.mk.inj formatted
    obtain ⟨rawResult, rawCalls⟩ := Prod.mk.inj raw
    obtain ⟨none, stored⟩ := writeModules_raw r.formatter ms []
    rw [formattedResult, rawResult]
    refine ⟨writeModules_formatting r.formatter ms [],
      formattedCalls.trans (calls_formatting r.formatter ms []), rawCalls.trans none, ?_,
      Formatter.formats_format r.formatter⟩
    intro outputs succeeded
    obtain rfl := stored outputs succeeded
    refine ⟨rfl, fun name => ?_⟩
    rw [Outputs.lookup_putAll]
    exact Option.or_none

end Compilation

end RpcScaffold
