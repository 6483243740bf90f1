import Mathlib.Data.List.Induction
import Mathlib.Tactic.SplitIfs
import SourceChunking.Log.Operation

/-! # Handlers over whole histories

Logging is set up on request and when a logger is asked for, but only the first setup and forced ones
take effect. One that does replaces everything that an earlier one decided: the level, the handlers
and the file. Nothing else touches these, so after any history they are those of the last setup that
took effect, however often logging was set up before.
-/
namespace SourceChunking

namespace Level

/-- The names of levels, with their numbers. -/
def numbers : List (String × Int) :=
  [("NOTSET", 0), ("DEBUG", debug), ("INFO", info), ("WARN", warning), ("WARNING", warning),
    ("ERROR", error), ("FATAL", critical), ("CRITICAL", critical)]

/-- The number of a level by its name, in capitals or not. -/
def number? (name : String) : Option Int :=
  numbers.lookup (String.ofList (name.toList.map Char.toUpper))

/-- There is no name, or it is that of a level. -/
def Standard (name : Option String) : Prop := ∀ text ∈ name, (number? text).isSome

instance (name : Option String) : Decidable (Standard name) :=
  inferInstanceAs (Decidable (∀ text ∈ name, _))

/-- The level of the argument, or else of the environment, or else that of warnings. -/
def choice (argument environment : Option String) : Int :=
  ((argument.or environment).bind number?).getD warning

end Level

/-! ## Names of levels -/

namespace Logging

theorem capitals_of_ascii {c : Char} (h : c.toUpper.toNat < 128) : capitals c = [c.toUpper] := by
  unfold capitals
  split_ifs with h₁ h₂ h₃
  · subst h₁
    exact absurd h (by decide)
  · subst h₂
    exact absurd h (by decide)
  · rcases h₃ with rfl | rfl
    · exact absurd h (by decide)
    · exact absurd h (by decide)
  · rfl

theorem flatMap_capitals {cs : List Char} (h : ∀ c ∈ cs.map Char.toUpper, c.toNat < 128) :
    cs.flatMap capitals = cs.map Char.toUpper := by
  induction cs with
  | nil => rfl
  | cons c cs ih =>
    rw [List.map_cons] at h
    obtain ⟨hc, hcs⟩ := List.forall_mem_cons.mp h
    rw [List.flatMap_cons, capitals_of_ascii hc, ih hcs]
    rfl

theorem levelNamed_congr {name name' : String}
    (h : name.toList.flatMap capitals = name'.toList.flatMap capitals) :
    levelNamed name = levelNamed name' := by
  rw [levelNamed, levelNamed, h]

theorem levelNamed_of_mem_numbers : ∀ entry ∈ Level.numbers, levelNamed entry.1 = .ok entry.2 := by
  simp only [Level.numbers, List.forall_mem_cons, List.not_mem_nil, false_imp_iff, implies_true]
  exact ⟨rfl, rfl, rfl, rfl, rfl, rfl, rfl, rfl, trivial⟩

theorem capitals_of_mem_numbers {entry : String × Int} (h : entry ∈ Level.numbers) :
    entry.1.toList.flatMap capitals = entry.1.toList ∧ ∀ c ∈ entry.1.toList, c.toNat < 128 := by
  have htable : (Level.numbers.all fun entry =>
      entry.1.toList.flatMap capitals == entry.1.toList &&
        entry.1.toList.all (·.toNat < 128)) = true := by decide
  simpa using List.all_eq_true.mp htable entry h

theorem levelNamed_of_number? {name : String} {level : Int} (h : Level.number? name = some level) :
    levelNamed name = .ok level := by
  obtain ⟨before, after, he, _⟩ := List.lookup_eq_some_iff.mp h
  have hmem : (String.ofList (name.toList.map Char.toUpper), level) ∈ Level.numbers := by simp [he]
  obtain ⟨hcapitals, hascii⟩ := capitals_of_mem_numbers hmem
  rw [String.toList_ofList] at hcapitals hascii
  rw [← levelNamed_of_mem_numbers _ hmem]
  apply levelNamed_congr
  rw [String.toList_ofList, hcapitals, flatMap_capitals hascii]

theorem levelNamed_chosenName {s : Logging} {request : LoggingRequest}
    (hrequest : Level.Standard request.level) (henv : Level.Standard s.environment) :
    levelNamed (s.chosenName request) = .ok (Level.choice request.level s.environment) := by
  have hnamed : ∀ {name : String}, (Level.number? name).isSome →
      levelNamed name = .ok ((Level.number? name).getD Level.warning) := by
    intro name h
    obtain ⟨level, hlevel⟩ := Option.isSome_iff_exists.mp h
    rw [levelNamed_of_number? hlevel, hlevel]
    rfl
  unfold chosenName Level.choice
  cases hl : request.level with
  | some name =>
    have hname := hrequest name hl
    have hne : ¬ name.isEmpty = true := by
      intro he
      obtain rfl := String.isEmpty_iff.mp he
      cases hname
    dsimp only
    rw [if_neg hne]
    exact hnamed hname
  | none =>
    cases he : s.environment with
    | some name => exact hnamed (henv name he)
    | none => rfl

end Logging

/-! ## Steps -/

/-- What can happen to logging. Operations report their start and their end. -/
inductive LoggingStep where
  | environment (name : Option String)
  | wait (lapse : Lapse)
  | setup (request : LoggingRequest)
  | getLogger
  | emit (r : Record)
  | report (name : String) (arguments : List String) (context : List (String × Value)) (r : Record)

namespace LoggingStep

/-- The setup that a step asks for. Whoever wants a logger asks for a plain one. -/
def request? : LoggingStep → Option LoggingRequest
  | .environment _ => none
  | .wait _ => none
  | .setup request => some request
  | _ => some .plain

def environment? : LoggingStep → Option (Option String)
  | .environment name => some name
  | _ => none

/-- Every level that the step names has a number. -/
def Standard : LoggingStep → Prop
  | .environment name => Level.Standard name
  | .setup request => Level.Standard request.level
  | _ => True

instance : DecidablePred Standard
  | .environment name => inferInstanceAs (Decidable (Level.Standard name))
  | .setup request => inferInstanceAs (Decidable (Level.Standard request.level))
  | .wait _ => isTrue trivial
  | .getLogger => isTrue trivial
  | .emit _ => isTrue trivial
  | .report _ _ _ _ => isTrue trivial

theorem Standard.request {step : LoggingStep} (h : step.Standard) {request : LoggingRequest}
    (hr : step.request? = some request) : Level.Standard request.level := by
  cases step with
  | setup request' =>
    cases hr
    exact h
  | environment name => cases hr
  | wait lapse => cases hr
  | _ =>
    cases hr
    exact fun _ hname => nomatch hname

/-- The name that the environment gives after the steps. -/
def environmentAfter (start : Option String) (steps : List LoggingStep) : Option String :=
  (steps.filterMap environment?).getLast?.getD start

end LoggingStep

namespace Logging
open LoggingStep
variable {s t : Logging} {request : LoggingRequest} {step : LoggingStep}

def after (s : Logging) : LoggingStep → Logging
  | .environment name => s.setEnvironment name
  | .wait lapse => (s.advance lapse).state
  | .setup request => (s.setup request).state
  | .getLogger => (s.setup .plain).state
  | .emit r => (s.emit r).state
  | .report name arguments context r => (s.report name arguments context r).state

/-- The second state differs from the first in what is written to files, if at all. -/
def OnlyFiles (s t : Logging) : Prop := ∃ files, t = { s with files := files }

theorem onlyFiles_refl (s : Logging) : OnlyFiles s s := ⟨s.files, rfl⟩

theorem OnlyFiles.trans {u : Logging} (h : OnlyFiles s t) (h' : OnlyFiles t u) : OnlyFiles s u := by
  obtain ⟨files, rfl⟩ := h
  obtain ⟨files', rfl⟩ := h'
  exact ⟨files', rfl⟩

theorem onlyFiles_serve (r : Record) (out : Logging × String) (h : Handler) :
    OnlyFiles out.1 (serve r out h).1 := by
  unfold serve
  split_ifs
  · exact onlyFiles_refl out.1
  · split
    · exact onlyFiles_refl out.1
    · exact onlyFiles_refl out.1
    · exact ⟨_, rfl⟩

theorem onlyFiles_foldl_serve (r : Record) (out : Logging × String) (hs : List Handler) :
    OnlyFiles out.1 (hs.foldl (serve r) out).1 := by
  induction hs generalizing out with
  | nil => exact onlyFiles_refl out.1
  | cons h hs ih => exact (onlyFiles_serve r out h).trans (ih (serve r out h))

theorem onlyFiles_dispatch (s : Logging) (r : Record) : OnlyFiles s (s.dispatch r).state := by
  unfold dispatch
  split_ifs
  · exact onlyFiles_refl s
  · split
    · exact onlyFiles_refl s
    · change OnlyFiles s (s.deliver r).1
      unfold deliver
      split_ifs
      · exact onlyFiles_refl s
      · exact onlyFiles_foldl_serve r (s, "") s.handlers

theorem onlyFiles_andThen (r : LoggingResult) {next : Logging → LoggingResult}
    (h : ∀ t, OnlyFiles t (next t).state) : OnlyFiles r.state (r.andThen next).state := by
  unfold LoggingResult.andThen
  split
  · exact onlyFiles_refl r.state
  · exact h r.state

/-- Beyond the setup it asks for, a step only writes to files. -/
theorem onlyFiles_after (h : step.request? = some request) :
    OnlyFiles (s.setup request).state (s.after step) := by
  cases step with
  | environment name => cases h
  | wait lapse => cases h
  | setup request' =>
    cases h
    exact onlyFiles_refl _
  | getLogger =>
    cases h
    exact onlyFiles_refl _
  | emit r =>
    cases h
    exact onlyFiles_andThen _ fun t => onlyFiles_dispatch t r
  | report name arguments context r =>
    cases h
    apply onlyFiles_andThen
    intro t
    split
    · exact onlyFiles_refl t
    · exact onlyFiles_dispatch t r

theorem setup_of_not_effective (hs : s.initialized = true) (hforce : request.force = false) :
    s.setup request = s.quiet := by
  simp [setup, isEffective, hs, hforce]

theorem onlyFiles_setup (heffective : s.isEffective request = true)
    (hrequest : Level.Standard request.level) (henv : Level.Standard s.environment) :
    OnlyFiles (s.configured request (Level.choice request.level s.environment))
      (s.setup request).state := by
  rw [setup, if_pos heffective, levelNamed_chosenName hrequest henv]
  exact onlyFiles_dispatch _ _

theorem exists_time_advance (s : Logging) (lapse : Lapse) :
    ∃ time, (s.advance lapse).state = { s with time := time } := by
  unfold advance
  split
  · exact ⟨_, rfl⟩
  · exact ⟨s.time, rfl⟩

theorem environment_configured (s : Logging) (request : LoggingRequest) (level : Int) :
    (s.configured request level).environment = s.environment := by
  unfold configured
  by_cases hfile : request.toFile = true
  · simp only [if_pos hfile]
    rfl
  · simp only [if_neg hfile]
    rfl

theorem environment_setup (s : Logging) (request : LoggingRequest) :
    (s.setup request).state.environment = s.environment := by
  unfold setup
  split_ifs
  · split
    · rfl
    · next level _ =>
      obtain ⟨files, he⟩ := onlyFiles_dispatch (s.configured request level)
        (s.initializedRecord request)
      rw [he]
      exact environment_configured s request level
  · rfl

/-- The environment changes by the steps that change it. -/
theorem environment_after (s : Logging) (step : LoggingStep) :
    (s.after step).environment = step.environment?.getD s.environment := by
  have hrequest : ∀ {request}, step.request? = some request →
      (s.after step).environment = s.environment := by
    intro request h
    obtain ⟨files, he⟩ := onlyFiles_after (s := s) h
    rw [he]
    exact environment_setup s request
  cases step with
  | environment name => rfl
  | wait lapse =>
    obtain ⟨time, he⟩ := exists_time_advance s lapse
    rw [after, he]
    rfl
  | _ => exact hrequest rfl

theorem environment_run (s : Logging) (steps : List LoggingStep) :
    (steps.foldl after s).environment = environmentAfter s.environment steps := by
  induction steps generalizing s with
  | nil => rfl
  | cons step rest ih =>
    rw [List.foldl_cons, ih, environment_after, environmentAfter, environmentAfter,
      List.filterMap_cons]
    cases step.environment? with
    | none => rfl
    | some name =>
      dsimp only
      rw [List.getLast?_cons]
      rfl

theorem standard_environment_run (hs : Level.Standard s.environment) {steps : List LoggingStep}
    (h : ∀ step ∈ steps, step.Standard) : Level.Standard (steps.foldl after s).environment := by
  induction steps generalizing s with
  | nil => exact hs
  | cons step rest ih =>
    obtain ⟨hstep, hrest⟩ := List.forall_mem_cons.mp h
    refine ih ?_ hrest
    rw [environment_after]
    cases step with
    | environment name => exact hstep
    | _ => exact hs

/-- What a setup decides: the console comes first and a file after it if asked for, all with the
level of the logger. -/
structure ConfiguredAs (s : Logging) (request : LoggingRequest) (level : Int) (file : String) :
    Prop where
  initialized : s.initialized = true
  level : s.level = level
  handlers : s.handlers =
    ⟨if request.rich then .richConsole else .plainConsole, s.level⟩ :: s.fileHandler.toList
  fileHandler : s.fileHandler = if request.toFile then some ⟨.file file, s.level⟩ else none

variable {level : Int} {file : String}

theorem configuredAs_configured (s : Logging) (request : LoggingRequest) (level : Int) :
    (s.configured request level).ConfiguredAs request level s.fileName := by
  unfold configured
  by_cases hfile : request.toFile = true
  · simp only [if_pos hfile]
    exact ⟨rfl, rfl, rfl, (if_pos hfile).symm⟩
  · simp only [if_neg hfile]
    exact ⟨rfl, rfl, rfl, (if_neg hfile).symm⟩

theorem ConfiguredAs.onlyFiles (h : s.ConfiguredAs request level file) (ht : OnlyFiles s t) :
    t.ConfiguredAs request level file := by
  obtain ⟨files, rfl⟩ := ht
  exact ⟨h.initialized, h.level, h.handlers, h.fileHandler⟩

theorem ConfiguredAs.level_of_mem (h : s.ConfiguredAs request level file) {handler : Handler}
    (hm : handler ∈ s.handlers) : handler.level = s.level := by
  rw [h.handlers, h.fileHandler] at hm
  rcases List.mem_cons.mp hm with rfl | hm
  · rfl
  · split_ifs at hm
    · rw [List.mem_singleton.mp hm]
    · cases hm

/-- Steps that force no setup keep what was decided. -/
theorem ConfiguredAs.after (h : s.ConfiguredAs request level file)
    (hstep : ∀ r ∈ step.request?, r.force = false) :
    (s.after step).ConfiguredAs request level file := by
  have hrequest : ∀ {r}, step.request? = some r →
      (s.after step).ConfiguredAs request level file := by
    intro r hr
    have hfiles := onlyFiles_after (s := s) hr
    rw [setup_of_not_effective h.initialized (hstep r hr)] at hfiles
    exact h.onlyFiles hfiles
  cases step with
  | environment name => exact ⟨h.initialized, h.level, h.handlers, h.fileHandler⟩
  | wait lapse =>
    obtain ⟨time, he⟩ := exists_time_advance s lapse
    rw [Logging.after, he]
    exact ⟨h.initialized, h.level, h.handlers, h.fileHandler⟩
  | _ => exact hrequest rfl

theorem ConfiguredAs.run (h : s.ConfiguredAs request level file) {steps : List LoggingStep}
    (hsteps : ∀ step ∈ steps, ∀ r ∈ step.request?, r.force = false) :
    (steps.foldl Logging.after s).ConfiguredAs request level file := by
  induction steps generalizing s with
  | nil => exact h
  | cons step rest ih =>
    obtain ⟨hstep, hrest⟩ := List.forall_mem_cons.mp hsteps
    exact ih (h.after hstep) hrest

theorem initialized_run_of_no_request {steps : List LoggingStep}
    (h : ∀ step ∈ steps, step.request? = none) :
    (steps.foldl Logging.after s).initialized = s.initialized := by
  induction steps generalizing s with
  | nil => rfl
  | cons step rest ih =>
    obtain ⟨hstep, hrest⟩ := List.forall_mem_cons.mp h
    rw [List.foldl_cons, ih hrest]
    cases step with
    | environment name => rfl
    | wait lapse =>
      obtain ⟨time, he⟩ := exists_time_advance s lapse
      rw [after, he]
    | _ => cases hstep

/-! ## The last setup that takes effect -/

/-- The setup after the steps `before` is the last one that takes effect: it is the first one or
forced, and none after it is forced. -/
def LastSetup (steps before : List LoggingStep) (request : LoggingRequest) : Prop :=
  ∃ step after, steps = before ++ step :: after ∧ step.request? = some request ∧
    (request.force = true ∨ ∀ earlier ∈ before, earlier.request? = none) ∧
    ∀ later ∈ after, ∀ r ∈ later.request?, r.force = false

theorem LastSetup.concat {steps before : List LoggingStep} (h : LastSetup steps before request)
    (hstep : ∀ r ∈ step.request?, r.force = false) : LastSetup (steps ++ [step]) before request := by
  obtain ⟨setup, after, rfl, hrequest, heffective, hafter⟩ := h
  refine ⟨setup, after ++ [step], by simp, hrequest, heffective, ?_⟩
  intro later hlater
  rcases List.mem_append.mp hlater with hlater | hlater
  · exact hafter later hlater
  · rw [List.mem_singleton.mp hlater]
    exact hstep

theorem exists_lastSetup {steps : List LoggingStep} (h : ∃ step ∈ steps, step.request? ≠ none) :
    ∃ before request, LastSetup steps before request := by
  -- the last step either takes effect itself or leaves the last setup before it in place
  induction steps using List.reverseRecOn with
  | nil => simp at h
  | append_singleton steps step ih =>
    by_cases hearlier : ∃ earlier ∈ steps, earlier.request? ≠ none
    · obtain ⟨before, request, hlast⟩ := ih hearlier
      by_cases hforced : ∃ r ∈ step.request?, r.force = true
      · obtain ⟨r, hr, hforce⟩ := hforced
        exact ⟨steps, r, step, [], rfl, hr, Or.inl hforce, by simp⟩
      · refine ⟨before, request, hlast.concat ?_⟩
        intro r hr
        exact Bool.eq_false_iff.mpr fun hforce => hforced ⟨r, hr, hforce⟩
    · have hnone : ∀ earlier ∈ steps, earlier.request? = none := by
        intro earlier hmem
        exact Classical.not_not.mp fun hne => hearlier ⟨earlier, hmem, hne⟩
      obtain ⟨asking, hmem, hne⟩ := h
      rcases List.mem_append.mp hmem with hmem | hmem
      · exact absurd (hnone asking hmem) hne
      · rw [List.mem_singleton.mp hmem] at hne
        obtain ⟨r, hr⟩ := Option.ne_none_iff_exists'.mp hne
        exact ⟨steps, r, step, [], rfl, hr, Or.inr hnone, by simp⟩

theorem LastSetup.configuredAs {steps before : List LoggingStep} (h : LastSetup steps before request)
    (hs : s.initialized = false) (henv : Level.Standard s.environment)
    (hsteps : ∀ step ∈ steps, step.Standard) :
    (steps.foldl Logging.after s).ConfiguredAs request
      (Level.choice request.level (environmentAfter s.environment before))
      (before.foldl Logging.after s).fileName := by
  obtain ⟨step, after, rfl, hrequest, heffective, hafter⟩ := h
  obtain ⟨hbefore, hrest⟩ := List.forall_mem_append.mp hsteps
  have hstandard := (hrest step (by simp)).request hrequest
  have heffective : (before.foldl Logging.after s).isEffective request = true := by
    rcases heffective with hforce | hfirst
    · simp [isEffective, hforce]
    · simp [isEffective, initialized_run_of_no_request hfirst, hs]
  have hfiles := (onlyFiles_setup heffective hstandard
    (standard_environment_run henv hbefore)).trans (onlyFiles_after hrequest)
  rw [List.foldl_append, List.foldl_cons]
  apply ConfiguredAs.run _ hafter
  rw [← environment_run]
  exact (configuredAs_configured _ _ _).onlyFiles hfiles

/-- After any history from an uninitialised state, logging is initialised if some step asked for it,
and it is as the last setup that took effect has decided: one console, then a file if this setup asked
for one, all with the level that it chose from its argument or else from the environment at its time.
From then on no unforced setup changes anything, and neither does asking for a logger. -/
theorem handlers_of_last_setup {start : Logging} (hstart : start.initialized = false)
    (henv : Level.Standard start.environment) {steps : List LoggingStep}
    (hsteps : ∀ step ∈ steps, step.Standard) (hs : s = steps.foldl Logging.after start) :
    (s.initialized = true ↔ ∃ step ∈ steps, step.request? ≠ none) ∧
    (s.initialized = true → ∃ before request, LastSetup steps before request) ∧
    (∀ before request, LastSetup steps before request →
      s.ConfiguredAs request (Level.choice request.level (environmentAfter start.environment before))
        (before.foldl Logging.after start).fileName ∧
      ∀ handler ∈ s.handlers, handler.level = s.level) ∧
    (s.initialized = true →
      (∀ request : LoggingRequest, request.force = false → s.setup request = s.quiet) ∧
      s.after .getLogger = s) := by
  subst hs
  have hlast : ∀ before request, LastSetup steps before request → (steps.foldl after start).ConfiguredAs
      request (Level.choice request.level (environmentAfter start.environment before))
      (before.foldl Logging.after start).fileName :=
    fun before request h => h.configuredAs hstart henv hsteps
  have hasked : (steps.foldl after start).initialized = true →
      ∃ step ∈ steps, step.request? ≠ none := by
    intro hinit
    apply Classical.byContradiction
    intro hnone
    have hnone : ∀ step ∈ steps, step.request? = none := by
      intro step hmem
      exact Classical.not_not.mp fun hne => hnone ⟨step, hmem, hne⟩
    rw [initialized_run_of_no_request hnone, hstart] at hinit
    cases hinit
  refine ⟨⟨hasked, ?_⟩, fun hinit => exists_lastSetup (hasked hinit), ?_, ?_⟩
  · intro hexists
    obtain ⟨before, request, h⟩ := exists_lastSetup hexists
    exact (hlast before request h).initialized
  · intro before request h
    exact ⟨hlast before request h, fun handler => (hlast before request h).level_of_mem⟩
  · intro hinit
    refine ⟨fun request => setup_of_not_effective hinit, ?_⟩
    rw [after, setup_of_not_effective hinit rfl]
    rfl

/-- A first setup by a record, one that comes too late, a forced one, and steps behind it. -/
def forcedBefore : List LoggingStep :=
  [.environment (some "info"), .emit ⟨Level.error, "codechunker.x", "first", []⟩,
    .setup ⟨some "ERROR", true, false, false⟩]

def forcedSteps : List LoggingStep :=
  forcedBefore ++
    [.setup ⟨none, false, true, true⟩, .environment (some "DEBUG"), .getLogger,
      .emit ⟨Level.debug, "codechunker.x", "second", []⟩]

theorem forcedSteps_handlers :
    Logging.fresh.initialized = false ∧ Level.Standard Logging.fresh.environment ∧
    (∀ step ∈ forcedSteps, step.Standard) ∧
    LastSetup forcedSteps forcedBefore ⟨none, false, true, true⟩ ∧
    ∃ s, s = forcedSteps.foldl Logging.after .fresh ∧ s.initialized = true ∧ s.level = Level.info ∧
      s.handlers = [⟨.plainConsole, Level.info⟩,
        ⟨.file (forcedBefore.foldl Logging.after .fresh).fileName, Level.info⟩] ∧
      s.setup ⟨some "ERROR", true, false, false⟩ = s.quiet ∧ s.after .getLogger = s := by
  have henv : Level.Standard Logging.fresh.environment := by decide
  have hsteps : ∀ step ∈ forcedSteps, step.Standard := by decide
  have hlast : LastSetup forcedSteps forcedBefore ⟨none, false, true, true⟩ :=
    ⟨_, _, rfl, rfl, Or.inl rfl, by decide⟩
  obtain ⟨_, _, hdecided, hquiet⟩ := handlers_of_last_setup rfl henv hsteps rfl
  obtain ⟨hconfigured, _⟩ := hdecided _ _ hlast
  have hlevel := hconfigured.level
  have hhandlers := hconfigured.handlers
  rw [show Level.choice none (environmentAfter Logging.fresh.environment forcedBefore) = Level.info
    by decide] at hlevel
  rw [hconfigured.fileHandler, hlevel] at hhandlers
  obtain ⟨hsetup, hlogger⟩ := hquiet hconfigured.initialized
  exact ⟨rfl, henv, hsteps, hlast, _, rfl, hconfigured.initialized, hlevel, hhandlers,
    hsetup _ rfl, hlogger⟩

end Logging
end SourceChunking
