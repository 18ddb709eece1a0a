import HotplugDetect.CommandLine

/-! # The grammar of the command line

A command line is a row of words, each an option with the path that it consumes or a scenario, and
then the place where the reading stops. Every list of arguments has such a reading, and what comes
out is decided by it alone.
-/

namespace HotplugDetect.CommandLine

def helpFlags : List String := ["-h", "--help"]

def versionFlags : List String := ["-v", "--version"]

def configFlags : List String := ["-c", "--config"]

def eventLogFlags : List String := ["-e", "--event-log"]

def flags : List String := helpFlags ++ versionFlags ++ configFlags ++ eventLogFlags

def Dashed (arg : String) : Prop := arg.toList.head? = some '-'

/-- What the reading passes over. -/
inductive Word
  | config (flag path : String)
  | eventLog (flag path : String)
  | scenario (path : String)

namespace Word

def args : Word → List String
  | config flag path => [flag, path]
  | eventLog flag path => [flag, path]
  | scenario path => [path]

def WellFormed : Word → Prop
  | config flag _ => flag ∈ configFlags
  | eventLog flag _ => flag ∈ eventLogFlags
  | scenario path => ¬Dashed path

def config? : Word → Option String
  | config _ path => some path
  | _ => none

def eventLog? : Word → Option String
  | eventLog _ path => some path
  | _ => none

def scenario? : Word → Option String
  | scenario path => some path
  | _ => none

end Word

def configs (words : List Word) : List String := words.filterMap Word.config?

def eventLogs (words : List Word) : List String := words.filterMap Word.eventLog?

def scenarios (words : List Word) : List String := words.filterMap Word.scenario?

/-- How the reading stops at the arguments that follow the words. -/
inductive Stops (words : List Word) : List String → Except UsageError Request → Prop

  | help {flag : String} {rest : List String} : flag ∈ helpFlags →
      Stops words (flag :: rest) (.ok .help)

  | version {flag : String} {rest : List String} : flag ∈ versionFlags →
      Stops words (flag :: rest) (.ok .version)

  | configPath {flag : String} : flag ∈ configFlags → Stops words [flag] (.error .configPath)

  | eventLogPath {flag : String} : flag ∈ eventLogFlags → Stops words [flag] (.error .eventLogPath)

  | unknownArgument {arg : String} {rest : List String} : Dashed arg → arg ∉ flags →
      Stops words (arg :: rest) (.error (.unknownArgument arg))

  | secondScenario {path : String} {rest : List String} : ¬Dashed path → scenarios words ≠ [] →
      Stops words (path :: rest) (.error .secondScenario)

  | noScenario : scenarios words = [] → Stops words [] (.error .noScenario)

  | run {path : String} : scenarios words = [path] →
      Stops words [] (.ok (.run ⟨(configs words).getLast?, (eventLogs words).getLast?, path⟩))

/-- The arguments are words with at most one scenario among them, up to those at which the reading
stops with a result. -/
structure Reads (args : List String) (words : List Word) (rest : List String)
    (result : Except UsageError Request) : Prop where

  split : args = words.flatMap Word.args ++ rest

  wellFormed : ∀ w ∈ words, w.WellFormed

  one_scenario : (scenarios words).length ≤ 1

  stops : Stops words rest result

section Flags

variable {flag path arg : String} {config eventLog scenario : Option String} {rest : List String}

theorem startsWith_iff (arg : String) : arg.startsWith "-" = true ↔ Dashed arg := by
  unfold Dashed
  rw [String.startsWith_string_iff]
  cases arg.toList <;> simp [eq_comm]

theorem not_mem_flags_iff : arg ∉ flags ↔
    ¬(arg = "-h" ∨ arg = "--help") ∧ ¬(arg = "-v" ∨ arg = "--version") ∧
      ¬(arg = "-c" ∨ arg = "--config") ∧ ¬(arg = "-e" ∨ arg = "--event-log") := by
  simp [flags, helpFlags, versionFlags, configFlags, eventLogFlags, and_assoc]

theorem dashed_of_mem_flags (h : flag ∈ flags) : Dashed flag := by
  have hall : ∀ flag ∈ flags, flag.toList.head? = some '-' := by decide
  exact hall flag h

theorem read_help (h : flag ∈ helpFlags) :
    read config eventLog scenario (flag :: rest) = .ok .help := by
  simp only [helpFlags, List.mem_cons, List.not_mem_nil, or_false] at h
  unfold read
  rw [if_pos h]

theorem read_version (h : flag ∈ versionFlags) :
    read config eventLog scenario (flag :: rest) = .ok .version := by
  simp only [versionFlags, List.mem_cons, List.not_mem_nil, or_false] at h
  unfold read
  rcases h with rfl | rfl <;> simp

theorem read_config (h : flag ∈ configFlags) :
    read config eventLog scenario (flag :: rest) =
      match rest with
      | [] => .error .configPath
      | path :: rest => read (some path) eventLog scenario rest := by
  simp only [configFlags, List.mem_cons, List.not_mem_nil, or_false] at h
  rw [read.eq_def]
  rcases h with rfl | rfl <;> cases rest <;> simp

theorem read_eventLog (h : flag ∈ eventLogFlags) :
    read config eventLog scenario (flag :: rest) =
      match rest with
      | [] => .error .eventLogPath
      | path :: rest => read config (some path) scenario rest := by
  simp only [eventLogFlags, List.mem_cons, List.not_mem_nil, or_false] at h
  rw [read.eq_def]
  rcases h with rfl | rfl <;> cases rest <;> simp

theorem read_other (h : arg ∉ flags) :
    read config eventLog scenario (arg :: rest) =
      if arg.startsWith "-" then .error (.unknownArgument arg)
      else if scenario.isSome then .error .secondScenario
      else read config eventLog (some arg) rest := by
  obtain ⟨hhelp, hversion, hconfig, heventLog⟩ := not_mem_flags_iff.mp h
  rw [read.eq_def]
  simp only [if_neg hhelp, if_neg hversion, if_neg hconfig, if_neg heventLog]

theorem read_unknown (hdash : Dashed arg) (h : arg ∉ flags) :
    read config eventLog scenario (arg :: rest) = .error (.unknownArgument arg) := by
  rw [read_other h, if_pos ((startsWith_iff arg).mpr hdash)]

theorem read_scenario (h : ¬Dashed path) :
    read config eventLog scenario (path :: rest) =
      if scenario.isSome then .error .secondScenario
      else read config eventLog (some path) rest := by
  rw [read_other (mt dashed_of_mem_flags h), if_neg (mt (startsWith_iff path).mp h)]

end Flags

/-- The words read so far, and the values that they left. -/
structure Passed (words : List Word) (config eventLog scenario : Option String) : Prop where

  wellFormed : ∀ w ∈ words, w.WellFormed

  config_eq : (configs words).getLast? = config

  eventLog_eq : (eventLogs words).getLast? = eventLog

  scenarios_eq : scenarios words = scenario.toList

section Passed

variable {words more : List Word} {config eventLog scenario : Option String}
  {args rest : List String} {result : Except UsageError Request}

theorem passed_nil : Passed [] none none none := ⟨by simp, rfl, rfl, rfl⟩

theorem getLast?_filterMap_concat (f : Word → Option String) (words : List Word) (w : Word) :
    ((words ++ [w]).filterMap f).getLast? = (f w).or (words.filterMap f).getLast? := by
  rw [List.filterMap_append, List.getLast?_append]
  cases h : f w <;> simp [h]

theorem Passed.concat (h : Passed words config eventLog scenario) {w : Word} (hw : w.WellFormed)
    (hone : w.scenario? = none ∨ scenario = none) :
    Passed (words ++ [w]) (w.config?.or config) (w.eventLog?.or eventLog)
      (w.scenario?.or scenario) := by
  constructor
  · intro w' hw'
    rcases List.mem_append.mp hw' with hw' | hw'
    · exact h.wellFormed w' hw'
    · exact List.mem_singleton.mp hw' ▸ hw
  · rw [← h.config_eq]
    exact getLast?_filterMap_concat _ _ _
  · rw [← h.eventLog_eq]
    exact getLast?_filterMap_concat _ _ _
  · rw [scenarios, List.filterMap_append, ← scenarios, h.scenarios_eq]
    rcases hone with hnone | rfl
    · simp [hnone]
    · cases hpath : w.scenario? <;> simp [hpath]

theorem Passed.one_scenario (h : Passed words config eventLog scenario) :
    (scenarios words).length ≤ 1 := by
  rw [h.scenarios_eq]
  cases scenario <;> simp

theorem Passed.read_stops (h : Passed words config eventLog scenario)
    (hstops : Stops words rest result) : read config eventLog scenario rest = result := by
  cases hstops with
  | help hflag => exact read_help hflag
  | version hflag => exact read_version hflag
  | configPath hflag => exact read_config hflag
  | eventLogPath hflag => exact read_eventLog hflag
  | unknownArgument hdash hflags => exact read_unknown hdash hflags
  | secondScenario hpath hseen =>
    rw [h.scenarios_eq] at hseen
    cases scenario with
    | none => exact absurd rfl hseen
    | some path => rw [read_scenario hpath, Option.isSome_some, if_pos rfl]
  | noScenario hseen =>
    rw [h.scenarios_eq] at hseen
    cases scenario with
    | none => rfl
    | some path => cases hseen
  | run hseen =>
    rw [h.scenarios_eq] at hseen
    cases scenario with
    | none => cases hseen
    | some path =>
      obtain rfl : path = _ := List.head_eq_of_cons_eq hseen
      rw [h.config_eq, h.eventLog_eq]
      rfl

theorem read_word {w : Word} (hw : w.WellFormed) (hone : w.scenario? = none ∨ scenario = none)
    (rest : List String) :
    read config eventLog scenario (w.args ++ rest) =
      read (w.config?.or config) (w.eventLog?.or eventLog) (w.scenario?.or scenario) rest := by
  cases w with
  | config flag path => exact read_config hw
  | eventLog flag path => exact read_eventLog hw
  | scenario path =>
    obtain rfl : scenario = none := hone.resolve_left (by simp [Word.scenario?])
    exact read_scenario hw

theorem Passed.none_or_none (h : Passed words config eventLog scenario) {w : Word}
    (hone : (scenarios (words ++ w :: more)).length ≤ 1) :
    w.scenario? = none ∨ scenario = none := by
  rw [scenarios, List.filterMap_append, ← scenarios, h.scenarios_eq] at hone
  cases hpath : w.scenario? with
  | none => exact .inl rfl
  | some path =>
    cases scenario with
    | none => exact .inr rfl
    | some seen => simp [hpath] at hone

theorem Passed.read_words (h : Passed words config eventLog scenario)
    (hmore : ∀ w ∈ more, w.WellFormed) (hone : (scenarios (words ++ more)).length ≤ 1) :
    ∃ config' eventLog' scenario', Passed (words ++ more) config' eventLog' scenario' ∧
      ∀ rest, read config eventLog scenario (more.flatMap Word.args ++ rest) =
        read config' eventLog' scenario' rest := by
  induction more generalizing words config eventLog scenario with
  | nil =>
    rw [List.append_nil]
    exact ⟨_, _, _, h, fun rest => rfl⟩
  | cons w more ih =>
    have hw : w.WellFormed := hmore w List.mem_cons_self
    have hnone := h.none_or_none hone
    have hsplit : words ++ w :: more = (words ++ [w]) ++ more := by simp
    rw [hsplit] at hone ⊢
    obtain ⟨c, e, s, hpassed, hread⟩ :=
      ih (h.concat hw hnone) (fun w hw => hmore w (List.mem_cons_of_mem _ hw)) hone
    refine ⟨c, e, s, hpassed, fun rest => ?_⟩
    rw [List.flatMap_cons, List.append_assoc, read_word hw hnone, hread]

theorem Passed.stopped (h : Passed words config eventLog scenario)
    (hstops : Stops words args result) :
    ∃ more rest, Reads (words.flatMap Word.args ++ args) more rest result :=
  ⟨words, args, rfl, h.wellFormed, h.one_scenario, hstops⟩

/-- Behind any words the reading comes to a stop that the grammar knows. The induction is on the
recursion of `read`: the partial result that it carries is what the words passed so far left. -/
theorem Passed.exists_reads (h : Passed words config eventLog scenario) :
    ∃ more rest, Reads (words.flatMap Word.args ++ args) more rest
      (read config eventLog scenario args) := by
  fun_induction read config eventLog scenario args generalizing words with
  | case1 config eventLog path =>
    obtain rfl := h.config_eq
    obtain rfl := h.eventLog_eq
    exact h.stopped (.run h.scenarios_eq)
  | case2 config eventLog => exact h.stopped (.noScenario h.scenarios_eq)
  | case3 config eventLog scenario flag rest hhelp =>
    exact h.stopped (.help (by simpa [helpFlags] using hhelp))
  | case4 config eventLog scenario flag rest _ hversion =>
    exact h.stopped (.version (by simpa [versionFlags] using hversion))
  | case5 config eventLog scenario flag _ _ hconfig =>
    exact h.stopped (.configPath (by simpa [configFlags] using hconfig))
  | case6 config eventLog scenario flag _ _ hconfig path rest ih =>
    have hflag : flag ∈ configFlags := by simpa [configFlags] using hconfig
    simpa [Word.args] using ih (h.concat (w := .config flag path) hflag (.inl rfl))
  | case7 config eventLog scenario flag _ _ _ heventLog =>
    exact h.stopped (.eventLogPath (by simpa [eventLogFlags] using heventLog))
  | case8 config eventLog scenario flag _ _ _ heventLog path rest ih =>
    have hflag : flag ∈ eventLogFlags := by simpa [eventLogFlags] using heventLog
    simpa [Word.args] using ih (h.concat (w := .eventLog flag path) hflag (.inl rfl))
  | case9 config eventLog scenario arg rest hhelp hversion hconfig heventLog hdash =>
    refine h.stopped (.unknownArgument ((startsWith_iff arg).mp hdash) ?_)
    exact not_mem_flags_iff.mpr ⟨hhelp, hversion, hconfig, heventLog⟩
  | case10 config eventLog scenario path rest _ _ _ _ hdash hseen =>
    refine h.stopped (.secondScenario (mt (startsWith_iff path).mpr hdash) ?_)
    rw [h.scenarios_eq]
    cases scenario <;> simp_all
  | case11 config eventLog scenario path rest _ _ _ _ hdash hseen ih =>
    obtain rfl : scenario = none := by simpa using hseen
    have hpath : ¬Dashed path := mt (startsWith_iff path).mpr hdash
    simpa [Word.args] using ih (h.concat (w := .scenario path) hpath (.inr rfl))

end Passed

theorem reads_parse (args : List String) : ∃ words rest, Reads args words rest (parse args) :=
  passed_nil.exists_reads

theorem Reads.eq_parse {args rest : List String} {words : List Word}
    {result : Except UsageError Request} (h : Reads args words rest result) :
    parse args = result := by
  obtain ⟨c, e, s, hpassed, hread⟩ := passed_nil.read_words h.wellFormed h.one_scenario
  calc parse args = read none none none (words.flatMap Word.args ++ rest) := by rw [parse, h.split]
    _ = read c e s rest := hread rest
    _ = result := hpassed.read_stops h.stops

/-- The result is the one that the grammar gives to the arguments. Unless options and a scenario
were read, the program ends there, with an error code if the reading failed, and what it prints
depends on nothing but the arguments. -/
theorem parse_follows_grammar (args : List String) :
    (∀ result, parse args = result ↔ ∃ words rest, Reads args words rest result) ∧
      ((∃ o, parse args = .ok (.run o)) ∨
        ∃ outcome : Outcome, (outcome.code = 0 ↔ ∃ request, parse args = .ok request) ∧
          ∀ {m : Type → Type} [Monad m] (host : Host m) (environment : Option String),
            run host environment args = pure outcome) := by
  constructor
  · intro result
    constructor
    · rintro rfl
      exact reads_parse args
    · rintro ⟨words, rest, hreads⟩
      exact hreads.eq_parse
  · cases hparse : parse args with
    | error e => exact .inr ⟨misused e, by simp [misused], fun host _ => by rw [run, hparse]⟩
    | ok request =>
      cases request with
      | help => exact .inr ⟨{ err := help }, by simp, fun host _ => by rw [run, hparse]⟩
      | version =>
        exact .inr ⟨{ out := "hpdstorm " ++ version ++ "\n" }, by simp,
          fun host _ => by rw [run, hparse]⟩
      | run o => exact .inl ⟨o, rfl⟩

/-- Options take what follows them, be it a flag; the last one of a kind counts. -/
example : parse ["-c", "a.json", "--event-log", "-h", "s.json", "--config", "--config"] =
    .ok (.run ⟨some "--config", some "-h", "s.json"⟩) := by
  cbv

end HotplugDetect.CommandLine
