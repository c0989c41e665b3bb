import Workflow.CommandLine.Execute
import Workflow.Proofs.Flow.Document
import Workflow.Proofs.Preparation
import Workflow.Proofs.Settings

/-!
# How commands end

A command ends with an exit code, except that settings that are not JSON and a log level that is not
known are not handled. The code is 2 if anything that the command is given is not valid; otherwise it is
0, or says how the run ended. The code for what is not expected is never given: a run that answers are
given for always comes to its end.

* `World.Unhandled` is what is not handled, `Command.Valid` what is valid.
* `RunStatus.exit` is the code of a run that has ended.
* `Command.exit_verdict` says how every command ends.
-/

namespace Workflow

/-- The exit code of a run that has ended. -/
def RunStatus.exit : RunStatus → Nat
  | succeeded => 0
  | failed => 3
  | cancelled => 4

/-! ## Runs with the executors that settings choose -/

/-- Every call of an executor that settings choose answers. -/
theorem Model.answers_of_executor {m : Model} {agents : List Agent}
    {service : ChatRequest → ChatReply} {executor : Executor}
    (h : m.executor? agents service = some executor) (agent : String) (earlier : Nat)
    (inputs : Fields Value) : (executor.call agent earlier inputs).ending ≠ .never := by
  unfold executor? at h
  split at h
  · cases h
    exact nofun
  · split at h
    · cases h
      exact nofun
    · cases h

namespace Runner

variable {r : Runner} {flow : Flow} {supplied : Fields Value} {occasion : Occasion}
  {ids : IdSource}

/-- A runner without an executor of its own takes the one that its settings choose. -/
theorem choose_snd (hexecutor : r.executor = none) :
    (r.choose flow occasion).2 = r.settings.model.executor? flow.agents occasion.service := by
  unfold choose
  rw [hexecutor]
  simp only
  split <;> rename_i h <;> rw [h]

/-- There is an executor unless a chat service is to answer and has no key. -/
theorem exists_choose_iff (hexecutor : r.executor = none) :
    (∃ executor, (r.choose flow occasion).2 = some executor) ↔
      (r.settings.model.provider = .openai → r.settings.model.hasKey) := by
  rw [choose_snd hexecutor]
  unfold Model.executor?
  cases hprovider : r.settings.model.provider with
  | echo => simp
  | openai => cases hkey : r.settings.model.hasKey <;> simp

/-- A flow that cannot be prepared is not run. -/
theorem run_eq_error_of_not_prepared
    (h : ∀ prepared rest, r.prepare flow occasion.previous ids ≠ .ok (prepared, rest)) :
    ∃ cause, (r.run flow supplied occasion ids).result = .error cause := by
  unfold run
  cases hprepare : r.prepare flow occasion.previous ids with
  | error cause => exact ⟨_, rfl⟩
  | ok result => exact absurd hprepare (h result.1 result.2)

/-- A flow is not run without an executor. -/
theorem run_eq_error_of_not_chosen
    (h : ∀ executor, (r.choose flow occasion).2 ≠ some executor) :
    ∃ cause, (r.run flow supplied occasion ids).result = .error cause := by
  unfold run
  cases hprepare : r.prepare flow occasion.previous ids with
  | error cause => exact ⟨_, rfl⟩
  | ok result =>
    obtain ⟨tree, _, hflow⟩ := prepare_eq_ok_iff.1 hprepare
    -- the choice of the executor does not look at the tree
    have hchoose : (r.choose result.1 occasion).2 = none := by
      rw [hflow]
      exact Option.eq_none_iff_forall_ne_some.2 h
    simp only
    split
    · exact ⟨_, rfl⟩
    · rename_i executor heq
      rw [heq] at hchoose
      cases hchoose

variable (supplied occasion) in
/-- A run that is given everything it needs comes to its end. -/
theorem finished_of_prepare {prepared : Flow} {rest : IdSource} {executor : Executor}
    (hexecutor : r.executor = none) (hlimit : r.settings.execution.limit ≠ 0)
    (hids : Function.Injective ids.draw) (hsound : flow.tree.Sound)
    (hprepare : r.prepare flow occasion.previous ids = .ok (prepared, rest))
    (hchoose : (r.choose flow occasion).2 = some executor) :
    ∃ s, (r.run flow supplied occasion ids).result = .ok s ∧ s.outcome = .finished s.result := by
  obtain ⟨tree, htree, rfl⟩ := prepare_eq_ok_iff.1 hprepare
  set setup := r.setup executor (Variables.bind flow.vars supplied) occasion
  have hagrees : Agrees (r.run flow supplied occasion ids) setup
      (setup.execute flow.tree r.settings.execution.separator ids) :=
    run_of_prepare hlimit hids htree hchoose
  have hexecute : setup.execute flow.tree r.settings.execution.separator ids =
      .ok (setup.run tree, rest) :=
    Setup.execute_of_prepare hlimit htree
  rw [hexecute] at hagrees
  obtain ⟨_, _, hfinal⟩ := Setup.execute_final hsound hexecute
  refine ⟨_, hagrees.1, hfinal.finished_of_answers fun agent earlier inputs => ?_⟩
  rw [choose_snd hexecutor] at hchoose
  exact Model.answers_of_executor hchoose agent earlier inputs

end Runner

namespace CommandLine

/-! ## What is not handled -/

/-- Where the settings of a command come from. -/
def World.sources (w : World) : Sources :=
  .of w.environment (w.files.read envFileName).toOption

/-- A part of the settings is not JSON, or the log level is not known. -/
inductive World.Unhandled (w : World) : Prop
  /-- A variable that holds a part of the settings does not hold JSON. -/
  | part {text : String} (h : text ∈ w.sources.parts)
      (hparse : ∃ fault, Json.parse text = .error fault)
  /-- No log level has the name that is set, in capitals, and it counts. -/
  | level {settings : Settings} (h : w.settings = .ok settings) (hdebug : settings.debug = false)
      (hname : LogLevel.ofName? (Unicode.upper settings.logLevel) = none)

/-! ## What is valid -/

/-- The runner and the flow of a command, which it needs before anything else. -/
structure Command.Reads (c : Command) (w : World) (r : Runner) (flow : Flow) : Prop where
  /-- There are settings, and a runner with them. -/
  runner : ∃ settings, w.settings = .ok settings ∧ Runner.of (c.adjust settings) none = .ok r
  /-- The file of the flow is there, and it holds a flow. -/
  flow : ∃ text, w.files.text c.flow = .ok text ∧ Document.checkText Flow.check text = .ok flow

/-- What a run needs. -/
structure RunOptions.Ready (o : RunOptions) (w : World) (r : Runner) (flow : Flow) (ids : IdSource)
    (supplied : Fields Value) (previous : Option Result) : Prop where
  /-- The file of variables holds an object, if there is one. -/
  given : o.supplied w.files = .ok (.ok supplied)
  /-- The file of the earlier result holds one, if there is one. -/
  result : o.previous w.files = .ok previous
  /-- No two nodes have one identifier. -/
  prepared : ∃ prepared rest, r.prepare flow previous ids = .ok (prepared, rest)
  /-- A chat service that is to answer has a key. -/
  key : r.settings.model.provider = .openai → r.settings.model.hasKey

/-- What a command is to do can be done. -/
def Action.Valid (w : World) (r : Runner) (flow : Flow) (ids : IdSource) : Action → Prop
  | .annotate output => (∃ prepared rest, r.prepare flow none ids = .ok (prepared, rest)) ∧
      ∀ path ∈ output, w.files.writeFault path = none
  | .resolve path => ∃ prepared rest, r.prepare flow none ids = .ok (prepared, rest) ∧
      ∃ place, prepared.tree.resolve path = .ok place
  | .run o => ∃ supplied previous, o.Ready w r flow ids supplied previous

/-- Everything that a command is given is valid. -/
def Command.Valid (c : Command) (w : World) (ids : IdSource) : Prop :=
  ∃ r flow, c.Reads w r flow ∧ c.action.Valid w r flow ids

/-! ## How a flow is dealt with -/

/-- A command says what is not valid, and does nothing else. -/
structure Output.Rejects (out : Output) : Prop where
  /-- The code is that of what is not valid. -/
  exit : out.exit = 2
  /-- There is a message. -/
  stderr : out.stderr ≠ []
  /-- Nothing is answered. -/
  stdout : out.stdout = ""
  /-- No file is written. -/
  file : out.file = none

/-- What a command does ends well, or as the run ends. -/
def Action.Answers (w : World) (r : Runner) (flow : Flow) (ids : IdSource) (out : Output) :
    Action → Prop
  | .run o => ∃ supplied previous s, o.Ready w r flow ids supplied previous ∧
      (r.run flow supplied { previous, time := w.time, service := w.service } ids).result = .ok s ∧
      s.outcome = .finished s.result ∧ out.exit = s.result.status.exit ∧
      out.stdout = s.result.toValue.toJson .document ++ "\n"
  | _ => out.exit = 0

section
variable {w : World} {r : Runner} {flow : Flow} {ids : IdSource} {o : RunOptions}
  {supplied : Fields Value} {previous : Option Result}

theorem invalid_ne_nil (r : Runner) (time : Int) (message : String) :
    invalid r time message ≠ [] := by
  simp [invalid]

/-- What cannot be prepared is rejected. -/
theorem withPrepared_cases (r : Runner) (flow : Flow) (ids : IdSource)
    (goOn : Flow → IdSource → Output) :
    (∃ prepared rest, r.prepare flow none ids = .ok (prepared, rest) ∧
        withPrepared r flow ids goOn = goOn prepared rest) ∨
      ((∀ prepared rest, r.prepare flow none ids ≠ .ok (prepared, rest)) ∧
        (withPrepared r flow ids goOn).Rejects) := by
  unfold withPrepared
  cases hprepare : r.prepare flow none ids with
  | error cause => exact .inr ⟨nofun, rfl, List.cons_ne_nil _ _, rfl, rfl⟩
  | ok result => exact .inl ⟨_, _, rfl, rfl⟩

/-- What cannot be written is rejected. -/
theorem annotateFlow_cases (w : World) (r : Runner) (output : Option String) (flow : Flow)
    (ids : IdSource) :
    ((∀ path ∈ output, w.files.writeFault path = none) ∧
        (annotateFlow w r output flow ids).exit = 0) ∨
      ((∃ path ∈ output, w.files.writeFault path ≠ none) ∧
        (annotateFlow w r output flow ids).Rejects) := by
  unfold annotateFlow
  cases output with
  | none => exact .inl ⟨nofun, rfl⟩
  | some path =>
    cases hfault : w.files.writeFault path with
    | none => exact .inl ⟨fun _ hpath => Option.some.inj hpath ▸ hfault, by simp [hfault]⟩
    | some fault =>
      refine .inr ⟨⟨path, rfl, by simp [hfault]⟩, ?_⟩
      simp only [hfault]
      exact ⟨rfl, invalid_ne_nil _ _ _, rfl, rfl⟩

/-- A path that addresses nothing is rejected. -/
theorem resolveFlow_cases (path : String) (flow : Flow) (ids : IdSource) :
    ((∃ place, flow.tree.resolve path = .ok place) ∧ (resolveFlow path flow ids).exit = 0) ∨
      ((∀ place, flow.tree.resolve path ≠ .ok place) ∧ (resolveFlow path flow ids).Rejects) := by
  unfold resolveFlow
  cases flow.tree.resolve path with
  | ok place => exact .inl ⟨⟨_, rfl⟩, rfl⟩
  | error e => exact .inr ⟨nofun, rfl, List.cons_ne_nil _ _, rfl, rfl⟩

/-- A file of variables or of an earlier result that does not hold them is rejected. -/
theorem runFlow_rejects_of_not_given (h : ∀ supplied previous,
    ¬ (o.supplied w.files = .ok (.ok supplied) ∧ o.previous w.files = .ok previous)) :
    (runFlow w r o flow ids).Rejects := by
  unfold runFlow
  cases hgiven : o.supplied w.files with
  | error message => exact ⟨rfl, invalid_ne_nil _ _ _, rfl, rfl⟩
  | ok given =>
    cases given with
    | error message => exact ⟨rfl, List.cons_ne_nil _ _, rfl, rfl⟩
    | ok supplied =>
      cases hresult : o.previous w.files with
      | error message => exact ⟨rfl, invalid_ne_nil _ _ _, rfl, rfl⟩
      | ok previous => exact absurd ⟨hgiven, hresult⟩ (h supplied previous)

/-- A run that is refused is rejected. -/
theorem runFlow_rejects_of_error {cause : RunnerRefusal}
    (hgiven : o.supplied w.files = .ok (.ok supplied)) (hresult : o.previous w.files = .ok previous)
    (h : (r.run flow supplied { previous, time := w.time, service := w.service } ids).result =
      .error cause) :
    (runFlow w r o flow ids).Rejects := by
  simp only [runFlow, runWith, hgiven, hresult, bind, Except.bind, pure, Except.pure, h]
  split
  · exact ⟨rfl, by simp, rfl, rfl⟩
  · exact ⟨rfl, by simp [invalid], rfl, rfl⟩
  · rename_i heq
    cases heq

/-- The exit code of a run that has come to its end is that of its status, and its result is
written. -/
theorem runFlow_of_finished {s : State} {result : RunResult}
    (hgiven : o.supplied w.files = .ok (.ok supplied)) (hresult : o.previous w.files = .ok previous)
    (h : (r.run flow supplied { previous, time := w.time, service := w.service } ids).result =
      .ok s) (hfinished : s.outcome = .finished result) :
    (runFlow w r o flow ids).exit = result.status.exit ∧
      (runFlow w r o flow ids).stdout = result.toValue.toJson .document ++ "\n" := by
  simp only [runFlow, runWith, hgiven, hresult, bind, Except.bind, pure, Except.pure, h, hfinished]
  cases result.status <;> exact ⟨rfl, rfl⟩

/-- What can be done is done, and anything else is rejected. -/
def Action.Settled (action : Action) (w : World) (r : Runner) (flow : Flow) (ids : IdSource) :
    Prop :=
  (action.Valid w r flow ids ∧ action.Answers w r flow ids (action.execute w r flow ids)) ∨
    (¬ action.Valid w r flow ids ∧ (action.execute w r flow ids).Rejects)

theorem settled_annotate (w : World) (r : Runner) (flow : Flow) (ids : IdSource)
    (output : Option String) : (Action.annotate output).Settled w r flow ids := by
  change (_ ∧ (withPrepared r flow ids (annotateFlow w r output)).exit = 0) ∨
    (_ ∧ (withPrepared r flow ids (annotateFlow w r output)).Rejects)
  rcases withPrepared_cases r flow ids (annotateFlow w r output) with
    ⟨prepared, rest, hprepare, heq⟩ | ⟨hrefused, hrejects⟩
  · rw [heq]
    rcases annotateFlow_cases w r output prepared rest with
      ⟨hwritten, hexit⟩ | ⟨⟨path, hpath, hfault⟩, hrejects⟩
    · exact .inl ⟨⟨⟨_, _, hprepare⟩, hwritten⟩, hexit⟩
    · exact .inr ⟨fun hvalid => hfault (hvalid.2 path hpath), hrejects⟩
  · exact .inr ⟨fun ⟨⟨prepared, rest, h⟩, _⟩ => hrefused prepared rest h, hrejects⟩

theorem settled_resolve (w : World) (r : Runner) (flow : Flow) (ids : IdSource) (path : String) :
    (Action.resolve path).Settled w r flow ids := by
  change (_ ∧ (withPrepared r flow ids (resolveFlow path)).exit = 0) ∨
    (_ ∧ (withPrepared r flow ids (resolveFlow path)).Rejects)
  rcases withPrepared_cases r flow ids (resolveFlow path) with
    ⟨prepared, rest, hprepare, heq⟩ | ⟨hrefused, hrejects⟩
  · rw [heq]
    rcases resolveFlow_cases path prepared rest with ⟨hplace, hexit⟩ | ⟨hplace, hrejects⟩
    · exact .inl ⟨⟨_, _, hprepare, hplace⟩, hexit⟩
    · refine .inr ⟨?_, hrejects⟩
      rintro ⟨_, _, hprepare', place, hplace'⟩
      rw [hprepare] at hprepare'
      cases hprepare'
      exact hplace place hplace'
  · exact .inr ⟨fun ⟨prepared, rest, h, _⟩ => hrefused prepared rest h, hrejects⟩

/-- A run that is given everything it needs comes to its end, since every call answers. -/
theorem settled_run (hexecutor : r.executor = none) (hlimit : r.settings.execution.limit ≠ 0)
    (hids : Function.Injective ids.draw) (hsound : flow.tree.Sound) :
    (Action.run o).Settled w r flow ids := by
  change ((∃ supplied previous, o.Ready w r flow ids supplied previous) ∧ _) ∨ (_ ∧ _)
  by_cases hready : ∃ supplied previous, o.Ready w r flow ids supplied previous
  · refine .inl ⟨hready, ?_⟩
    obtain ⟨supplied, previous, hready⟩ := hready
    obtain ⟨prepared, rest, hprepare⟩ := hready.prepared
    obtain ⟨executor, hchoose⟩ := (Runner.exists_choose_iff hexecutor).2 hready.key
    obtain ⟨s, hrun, hfinished⟩ := Runner.finished_of_prepare supplied
      { previous, time := w.time, service := w.service } hexecutor hlimit hids hsound hprepare
      hchoose
    exact ⟨supplied, previous, s, hready, hrun, hfinished,
      runFlow_of_finished hready.given hready.result hrun hfinished⟩
  · refine .inr ⟨hready, ?_⟩
    by_cases hgiven : ∃ supplied previous,
        o.supplied w.files = .ok (.ok supplied) ∧ o.previous w.files = .ok previous
    · obtain ⟨supplied, previous, hgiven, hresult⟩ := hgiven
      obtain ⟨cause, hcause⟩ : ∃ cause, (r.run flow supplied
          { previous, time := w.time, service := w.service } ids).result = .error cause := by
        by_cases hprepare : ∃ prepared rest, r.prepare flow previous ids = .ok (prepared, rest)
        · refine Runner.run_eq_error_of_not_chosen fun executor hchoose => hready ?_
          exact ⟨supplied, previous, hgiven, hresult, hprepare,
            (Runner.exists_choose_iff hexecutor).1 ⟨executor, hchoose⟩⟩
        · exact Runner.run_eq_error_of_not_prepared fun prepared rest h =>
            hprepare ⟨prepared, rest, h⟩
      exact runFlow_rejects_of_error hgiven hresult hcause
    · exact runFlow_rejects_of_not_given fun supplied previous h => hgiven ⟨supplied, previous, h⟩

end

/-- How a command ends. -/
structure Command.Verdict (c : Command) (w : World) (ids : IdSource) : Prop where
  /-- Settings that are not JSON and a log level that is not known are all that is not handled. -/
  unhandled : (∃ e, c.execute w ids = .error e) ↔ w.Unhandled
  /-- Whatever else is not valid is rejected. -/
  invalid : ¬ w.Unhandled → ¬ c.Valid w ids → ∃ out, c.execute w ids = .ok out ∧ out.Rejects
  /-- What is valid is done. -/
  valid : c.Valid w ids → ∃ out r flow, c.execute w ids = .ok out ∧ c.Reads w r flow ∧
    c.action.Answers w r flow ids out
  /-- The code for what is not expected is never given. -/
  expected : ∀ out, c.execute w ids = .ok out → out.exit ∈ [0, 2, 3, 4]

/-! ## How commands end -/

section
variable {c : Command} {w : World} {r : Runner} {flow : Flow} {settings : Settings}
  {ids : IdSource}

/-- A command says nothing about logging or execution that the settings do not say. -/
theorem Command.adjust_eq (c : Command) (settings : Settings) :
    c.adjust settings = { settings with model := (c.adjust settings).model } := by
  unfold adjust
  split <;> rfl

/-- There is a runner unless no log level has the name that is set, and it counts. -/
theorem exists_of_iff : (∃ r, Runner.of settings none = .ok r) ↔
    ¬ (settings.debug = false ∧ LogLevel.ofName? (Unicode.upper settings.logLevel) = none) := by
  unfold Runner.of Logging.ofNames
  cases hdebug : settings.debug with
  | true =>
    have hlevel : LogLevel.ofName? (Unicode.upper LogLevel.debug.name) = some .debug := by
      decide +kernel
    simp [hlevel, bind, Except.bind, pure, Except.pure]
  | false =>
    cases hlevel : LogLevel.ofName? (Unicode.upper settings.logLevel) <;>
      simp [hlevel, bind, Except.bind, pure, Except.pure]

theorem Runner.of_eq_ok (h : Runner.of settings none = .ok r) :
    r.settings = settings ∧ r.executor = none := by
  unfold Runner.of at h
  cases hnames : Logging.ofNames (if settings.debug then LogLevel.debug.name else settings.logLevel)
    settings.logForm.name with
  | error cause => simp [hnames, bind, Except.bind] at h
  | ok logging =>
    simp only [hnames, bind, Except.bind, pure, Except.pure, Except.ok.injEq] at h
    subst h
    exact ⟨rfl, rfl⟩

/-- The runner of a command has the settings' limit, and no executor of its own. -/
theorem Command.Reads.of_runner (h : c.Reads w r flow) :
    r.executor = none ∧ r.settings.execution.limit ≠ 0 := by
  obtain ⟨settings, hsettings, hrunner⟩ := h.runner
  obtain ⟨heq, hexecutor⟩ := Runner.of_eq_ok hrunner
  refine ⟨hexecutor, ?_⟩
  rw [heq, c.adjust_eq]
  exact Settings.limit_ne_zero_of_load (s := settings) hsettings

/-- The flow of a command is sound. -/
theorem Command.Reads.sound (h : c.Reads w r flow) : flow.tree.Sound := by
  obtain ⟨text, _, htext⟩ := h.flow
  obtain ⟨v, _, hcheck⟩ := Document.check_of_checkText htext
  exact Flow.sound_of_check hcheck

/-- A command that has read its runner and its flow goes on with them. -/
theorem Command.execute_of_reads (h : c.Reads w r flow) (ids : IdSource) :
    ∃ lines, c.execute w ids = .ok { c.action.execute w r flow ids with
      stderr := lines ++ (c.action.execute w r flow ids).stderr } := by
  obtain ⟨settings, hsettings, hrunner⟩ := h.runner
  obtain ⟨text, htext, hcheck⟩ := h.flow
  unfold execute
  simp only [hsettings, hrunner, htext, hcheck]
  exact ⟨_, rfl⟩

/-- What is not handled, in terms of the settings and the runner of a command. -/
theorem World.unhandled_iff (c : Command) : w.Unhandled ↔
    (∃ field source, w.settings = .error (.unreadable field source)) ∨
      ∃ settings, w.settings = .ok settings ∧
        ¬ ∃ r, Runner.of (c.adjust settings) none = .ok r := by
  have hrunner (settings : Settings) : (∃ r, Runner.of (c.adjust settings) none = .ok r) ↔
      ¬ (settings.debug = false ∧ LogLevel.ofName? (Unicode.upper settings.logLevel) = none) := by
    rw [exists_of_iff, c.adjust_eq]
  simp only [hrunner, not_not]
  constructor
  · rintro (⟨htext, hparse⟩ | ⟨h, hdebug, hname⟩)
    · exact .inl (Settings.load_eq_unreadable_iff.2 ⟨_, htext, hparse⟩)
    · exact .inr ⟨_, h, hdebug, hname⟩
  · rintro (h | ⟨settings, h, hdebug, hname⟩)
    · obtain ⟨text, htext, hparse⟩ := Settings.load_eq_unreadable_iff.1 h
      exact .part htext hparse
    · exact .level h hdebug hname

/-- What a command cannot read is rejected or not handled. -/
theorem Command.execute_cases_of_not_reads (h : ∀ r flow, ¬ c.Reads w r flow) (ids : IdSource) :
    (w.Unhandled ∧ ∃ e, c.execute w ids = .error e) ∨
      (¬ w.Unhandled ∧ ∃ out, c.execute w ids = .ok out ∧ out.Rejects) := by
  rw [w.unhandled_iff c]
  unfold execute
  cases hsettings : w.settings with
  | error e =>
    cases e with
    | unreadable field source => exact .inl ⟨.inl ⟨field, source, rfl⟩, _, rfl⟩
    | issues issues =>
      exact .inr ⟨by simp, _, rfl, rfl, List.cons_ne_nil _ _, rfl, rfl⟩
  | ok settings =>
    cases hrunner : Runner.of (c.adjust settings) none with
    | error cause =>
      simp only [hrunner]
      exact .inl ⟨.inr ⟨settings, rfl, by simp [hrunner]⟩, _, rfl⟩
    | ok r =>
      simp only [hrunner]
      refine .inr ⟨by simp [hrunner], ?_⟩
      cases htext : w.files.text c.flow with
      | error reason => exact ⟨_, rfl, rfl, List.append_ne_nil_of_right_ne_nil _ nofun, rfl, rfl⟩
      | ok text =>
        cases hcheck : Document.checkText Flow.check text with
        | error issues =>
          simp only [hcheck]
          exact ⟨_, rfl, rfl, List.append_ne_nil_of_right_ne_nil _ nofun, rfl, rfl⟩
        | ok flow =>
          exact absurd ⟨⟨settings, hsettings, hrunner⟩, text, htext, hcheck⟩ (h r flow)

theorem Command.Reads.not_unhandled (h : c.Reads w r flow) : ¬ w.Unhandled := by
  obtain ⟨settings, hsettings, hrunner⟩ := h.runner
  simp [w.unhandled_iff c, hsettings, hrunner]

theorem Command.Reads.eq {r' : Runner} {flow' : Flow} (h : c.Reads w r flow)
    (h' : c.Reads w r' flow') : r = r' ∧ flow = flow' := by
  obtain ⟨settings, hsettings, hrunner⟩ := h.runner
  obtain ⟨settings', hsettings', hrunner'⟩ := h'.runner
  obtain ⟨text, htext, hcheck⟩ := h.flow
  obtain ⟨text', htext', hcheck'⟩ := h'.flow
  rw [hsettings] at hsettings'
  cases hsettings'
  rw [hrunner] at hrunner'
  rw [htext] at htext'
  cases htext'
  rw [hcheck] at hcheck'
  exact ⟨Except.ok.inj hrunner', Except.ok.inj hcheck'⟩

/-- What a command has to do does not depend on the lines that are written before. -/
theorem Action.Answers.of_stderr {action : Action} {ids : IdSource} {out : Output}
    (h : action.Answers w r flow ids out) (lines : List String) :
    action.Answers w r flow ids { out with stderr := lines } := by
  cases action <;> exact h

theorem Output.Rejects.mem {out : Output} (h : out.Rejects) : out.exit ∈ [0, 2, 3, 4] := by
  rw [h.exit]
  decide

theorem RunStatus.exit_mem (status : RunStatus) : status.exit ∈ [0, 2, 3, 4] := by
  cases status <;> decide

theorem Action.Answers.mem {action : Action} {out : Output}
    (h : action.Answers w r flow ids out) : out.exit ∈ [0, 2, 3, 4] := by
  cases action with
  | run o =>
    obtain ⟨_, _, s, _, _, _, hexit, _⟩ := h
    rw [hexit]
    exact RunStatus.exit_mem _
  | _ =>
    change out.exit = 0 at h
    rw [h]
    decide

/-- A command whose input is valid does what it is to do and ends with 0, or with 0, 3 or 4 as the
status of its run says. Any other input is rejected with the code 2 and a message, except that
settings that are not JSON and a log level that is not known are not handled. -/
theorem Command.exit_verdict (c : Command) (w : World) (hids : Function.Injective ids.draw) :
    c.Verdict w ids := by
  by_cases hreads : ∃ r flow, c.Reads w r flow
  · obtain ⟨r, flow, hreads⟩ := hreads
    obtain ⟨hexecutor, hlimit⟩ := hreads.of_runner
    have hsettled : c.action.Settled w r flow ids := by
      cases c.action with
      | annotate output => exact settled_annotate w r flow ids output
      | resolve path => exact settled_resolve w r flow ids path
      | run o => exact settled_run hexecutor hlimit hids hreads.sound
    obtain ⟨lines, hexecute⟩ := Command.execute_of_reads hreads ids
    have hvalid : c.Valid w ids ↔ c.action.Valid w r flow ids := by
      constructor
      · rintro ⟨r', flow', hreads', hvalid⟩
        obtain ⟨rfl, rfl⟩ := hreads.eq hreads'
        exact hvalid
      · exact fun h => ⟨r, flow, hreads, h⟩
    refine ⟨?_, ?_, ?_, ?_⟩
    · simp [hexecute, hreads.not_unhandled]
    · intro _ hinvalid
      rcases hsettled with ⟨h, _⟩ | ⟨_, hrejects⟩
      · exact absurd (hvalid.2 h) hinvalid
      · exact ⟨_, hexecute, hrejects.exit, by simp [hrejects.stderr], hrejects.stdout, hrejects.file⟩
    · intro h
      rcases hsettled with ⟨_, hanswers⟩ | ⟨hinvalid, _⟩
      · exact ⟨_, r, flow, hexecute, hreads, hanswers.of_stderr _⟩
      · exact absurd (hvalid.1 h) hinvalid
    · intro out hout
      rw [hexecute, Except.ok.injEq] at hout
      subst hout
      exact hsettled.elim (fun h => h.2.mem) fun h => h.2.mem
  · have hnot : ∀ r flow, ¬ c.Reads w r flow := fun r flow h => hreads ⟨r, flow, h⟩
    have hinvalid : ¬ c.Valid w ids := fun ⟨r, flow, h, _⟩ => hnot r flow h
    rcases Command.execute_cases_of_not_reads hnot ids with ⟨hunhandled, e, he⟩ | ⟨hhandled, out, hout⟩
    · exact ⟨by simp [he, hunhandled], fun h => absurd hunhandled h, fun h => absurd h hinvalid,
        by simp [he]⟩
    · refine ⟨?_, fun _ _ => ⟨out, hout⟩, fun h => absurd h hinvalid, ?_⟩
      · simp [hout.1, hhandled]
      · intro out' hout'
        rw [hout.1, Except.ok.injEq] at hout'
        subst hout'
        exact hout.2.mem

end

/-- A directory with one file, in which everything may be written. -/
def Files.single (path text : String) : Files where
  read other := if other = path then .ok text else .error .missing
  writeFault _ := none

/-- In a directory that holds a flow of one step, the flow is annotated, a path that addresses nothing
is rejected, and a log level that is not known is not handled. -/
theorem Command.exit_verdict_step : ∃ (files : Files) (quiet loud : World) (annotate resolve : Command),
    files = .single "flow.json"
      "\x7b\"code\": \"c\", \"flow\": \x7b\"kind\": \"step\", \"agent\": \"a\"\x7d\x7d" ∧
    quiet = { files, environment := [("FLOW_ENGINE_LOG_LEVEL", "error")] } ∧
    loud = { files, environment := [("FLOW_ENGINE_LOG_LEVEL", "loud")] } ∧
    annotate = ⟨"flow.json", .annotate none⟩ ∧ resolve = ⟨"flow.json", .resolve "$.input"⟩ ∧
    (annotate.execute quiet .counting).map Output.exit = .ok 0 ∧
    (resolve.execute quiet .counting).map Output.exit = .ok 2 ∧
    (annotate.execute loud .counting).map Output.exit = .error (.level ⟨"LOUD"⟩) ∧
    annotate.Verdict quiet .counting ∧ resolve.Verdict quiet .counting ∧
    annotate.Verdict loud .counting := by
  have hids := IdSource.draw_countingFrom_injective 1
  exact ⟨_, _, _, _, _, rfl, rfl, rfl, rfl, rfl, by decide +kernel, by decide +kernel,
    by decide +kernel, Command.exit_verdict _ _ hids, Command.exit_verdict _ _ hids,
    Command.exit_verdict _ _ hids⟩

end CommandLine
end Workflow
