import HotplugDetect.Proofs.Files.Appending
import HotplugDetect.Proofs.Json.Lines
import HotplugDetect.Proofs.Simulation.Validity

/-! # The event log of a run

The log tells a run step by step. Behind the record of a step stands what the driver answered to
it, and then whatever reached the display side before the next step; the report comes last.
-/

namespace HotplugDetect

section Lines

/-- An object without the members of a name. -/
def Node.without (key : String) : Node → Node
  | .object members tail => .object (members.filter (·.1 ≠ some key)) tail
  | n => n

namespace LogRecord

def node (r : LogRecord) : Node :=
  .object [(some "data", .ofJson r.data), (some "event", .text r.event)] .closed

/-- The lines of a log hold its records. -/
theorem readLines_join {rs : List LogRecord} {times : List Nat} (h : times.length = rs.length) :
    (Node.readLines (String.join (List.zipWith line rs times))).map (·.without "ts_ms") =
      rs.map node := by
  have hlines : List.zipWith line rs times = (List.zipWith (fun r time => Json.object
      [("data", r.data), ("event", r.event), ("ts_ms", .nat time)]) rs times).map
        fun j => j.compact ++ "\n" := by
    rw [List.map_zipWith]
    rfl
  have hnode (r : LogRecord) (time : Nat) :
      (Node.ofJson (.object [("data", r.data), ("event", r.event), ("ts_ms", .nat time)])).without
        "ts_ms" = r.node := by
    simp [Node.without, Node.ofJson, Node.ofMembers, node]
  rw [hlines, Node.readLines_join, List.map_zipWith, List.map_zipWith]
  simp only [hnode]
  clear hlines
  induction rs generalizing times with
  | nil => rfl
  | cons r rs ih =>
    cases times with
    | nil => cases h
    | cons time times =>
      rw [List.zipWith_cons_cons, List.map_cons, ih (Nat.succ.inj h)]

end LogRecord

end Lines

def Moment.call? : Moment → Option Call
  | core (.call c) => some c
  | _ => none

namespace Simulation

variable {s t : Simulation} {step : Step}

section Chapters

theorem records_opening (scenario : Scenario) (settings : Settings) :
    (opening scenario settings).records = [] := rfl

def answers (s : Simulation) : Step → List LogRecord
  | .disablePin pin =>
    [⟨"disable_pin", .object
      [("pin", Pin.codec.write pin), ("was_enabled", (s.core.disable pin).2)]⟩]
  | _ => []

def notices (s : Simulation) (step : Step) : List LogRecord :=
  List.replicate ((s.runStep step).1.report.hotplugEvents - s.report.hotplugEvents)
    ⟨"hotplug_event", .null⟩

/-- What the log tells of one step. -/
def chapter (s : Simulation) (step : Step) : List LogRecord :=
  ⟨"step", step.write⟩ :: (s.answers step ++ s.notices step)

def chapters (s : Simulation) : List Step → List (List LogRecord)
  | [] => []
  | step :: rest => s.chapter step :: (s.runStep step).1.chapters rest

theorem filterMap_record?_core (es : List Event) :
    (es.map Moment.core).filterMap Moment.record? =
      List.replicate (((es.map Moment.core).filterMap Moment.call?).count .hotplugEvent)
        ⟨"hotplug_event", .null⟩ := by
  induction es with
  | nil => rfl
  | cons e es ih =>
    rcases e with c | m
    · by_cases h : c = .hotplugEvent
      · subst h
        simp [Moment.record?, Moment.call?, ih, List.replicate_succ]
      · have hsilent : (Moment.core (.call c)).record? = none := by
          cases c with
          | hotplugEvent => exact absurd rfl h
          | _ => rfl
        simp [hsilent, Moment.call?, h, ih]
    · exact ih

/-- A step that is done leaves its answer in the history, and calls nobody by itself. -/
theorem history_perform (h : s.perform step = .ok t) :
    ∃ ms, t.history = ms ++ s.history ∧ ms.filterMap Moment.record? = s.answers step ∧
      ms.filterMap Moment.call? = [] := by
  cases step with
  | disablePin pin =>
    cases h
    exact ⟨[.disabled pin (s.core.disable pin).2], rfl, rfl, rfl⟩
  | plug name connected =>
    rw [perform, plug_eq] at h
    split at h
    · cases h
      exact ⟨[], rfl, rfl, rfl⟩
    · cases h
  | threshold value =>
    obtain ⟨k, -, hset⟩ := bind_eq_ok.mp h
    cases hset
    exact ⟨[], rfl, rfl, rfl⟩
  | shortStorms value =>
    obtain ⟨k, -, hset⟩ := bind_eq_ok.mp h
    cases hset
    exact ⟨[], rfl, rfl, rfl⟩
  | _ =>
    cases h
    exact ⟨[], rfl, rfl, rfl⟩

theorem hotplugEvents_eq (s : Simulation) :
    s.report.hotplugEvents = (s.history.filterMap Moment.call?).count .hotplugEvent := rfl

theorem records_runStep (h : (s.runStep step).2 = none) :
    (s.runStep step).1.records = s.records ++ s.chapter step := by
  rcases s.runStep_cases step with ⟨e, hfail⟩ | ⟨t, ht, hdone⟩
  · rw [hfail] at h
    cases h
  · obtain ⟨ms, hhistory, hanswers, hcalls⟩ := history_perform ht
    have hafter : (s.runStep step).1.history =
        (t.core.sleep settleTime).trace.map Moment.core ++ (ms ++ .step step :: s.history) := by
      rw [hdone]
      exact congrArg ((t.core.sleep settleTime).trace.map Moment.core ++ ·) hhistory
    have hnotices : s.notices step =
        ((t.core.sleep settleTime).trace.map Moment.core).filterMap Moment.record? := by
      rw [notices, filterMap_record?_core, hotplugEvents_eq, hotplugEvents_eq, hafter,
        List.filterMap_append, List.filterMap_append, hcalls, List.filterMap_cons_none rfl,
        List.count_append, List.nil_append, Nat.add_sub_cancel]
    have hanswers' : ms.reverse.filterMap Moment.record? = s.answers step := by
      rw [List.filterMap_reverse, hanswers]
      cases step <;> rfl
    have hnotices' : ((t.core.sleep settleTime).trace.map Moment.core).reverse.filterMap
        Moment.record? = s.notices step := by
      rw [List.filterMap_reverse, ← hnotices, notices, List.reverse_replicate]
    unfold records
    rw [hafter, chapter, ← hanswers', ← hnotices']
    simp [Moment.record?]

/-- The chapters follow each other. -/
theorem records_runSteps {steps : List Step} (h : (s.runSteps steps).2 = none) :
    (s.runSteps steps).1.records = s.records ++ (s.chapters steps).flatten := by
  induction steps generalizing s with
  | nil => simp [runSteps, chapters]
  | cons step rest ih =>
    rcases hstep : s.runStep step with ⟨t, _ | e⟩
    · have hfirst : t.records = s.records ++ s.chapter step := by
        have hdone : (s.runStep step).2 = none := by rw [hstep]
        have hrecords := records_runStep hdone
        rwa [hstep] at hrecords
      have hruns : s.runSteps (step :: rest) = t.runSteps rest := by rw [runSteps, hstep]
      rw [hruns] at h ⊢
      rw [ih h, hfirst, chapters, hstep, List.flatten_cons, List.append_assoc]
    · rw [runSteps, hstep] at h
      cases h

end Chapters

section Counts

/-- Every notice of the display side is recorded once. -/
theorem length_filter_notices (ms : List Moment) :
    ((ms.filterMap Moment.record?).filter (·.event = "hotplug_event")).length =
      (ms.filterMap Moment.call?).count .hotplugEvent := by
  induction ms with
  | nil => rfl
  | cons m ms ih =>
    rcases m with (c | m) | step | ⟨pin, wasEnabled⟩
    · cases c with
      | hotplugEvent => simp [Moment.record?, Moment.call?, ih]
      | _ => exact ih
    · exact ih
    · exact ih
    · exact ih

theorem notices_records (s : Simulation) :
    (s.records.filter (·.event = "hotplug_event")).length = s.report.hotplugEvents := by
  rw [records, List.filterMap_reverse, List.filter_reverse, List.length_reverse,
    length_filter_notices, hotplugEvents_eq]

theorem filter_step_chapters (s : Simulation) (steps : List Step) :
    (s.chapters steps).flatten.filter (·.event = "step") =
      steps.map fun step => ⟨"step", step.write⟩ := by
  induction steps generalizing s with
  | nil => rfl
  | cons step rest ih =>
    have hanswers : (s.answers step).filter (·.event = "step") = [] := by
      cases step <;> rfl
    have hnotices : (s.notices step).filter (·.event = "step") = [] := by
      rw [notices, List.filter_replicate, if_neg (by decide)]
    rw [chapters, List.flatten_cons, List.filter_append, ih, chapter]
    simp [hanswers, hnotices]

theorem filter_report_records (s : Simulation) : s.records.filter (·.event = "report") = [] := by
  rw [List.filter_eq_nil_iff]
  intro r hr
  obtain ⟨m, -, hm⟩ := List.mem_filterMap.mp hr
  rcases m with (c | m) | step | ⟨pin, wasEnabled⟩
  · cases c with
    | hotplugEvent =>
      cases hm
      decide
    | _ => cases hm
  · cases hm
  · cases hm
    exact Bool.false_ne_true
  · cases hm
    exact Bool.false_ne_true

end Counts

end Simulation

namespace Scenario

/-- The log of a run holds the records of the run, whatever the clock says. -/
theorem log_tells_run {scenario : Scenario} (hvalid : scenario.validate = .ok ())
    (settings : Settings) {time : FileTree → Nat} {path : String} {before opened : FileTree}
    {log : EventLog}
    (hopen : EventLog.openFile (FileTree.hostAt time) path before = (.ok log, opened))
    (hfresh : opened.look path = .ok .empty) :
    ∃ s report rs text after,
      Simulation.new scenario settings = .ok s ∧ s.run scenario.steps = (.ok report, rs) ∧
      CommandLine.simulate (FileTree.hostAt time) log scenario settings opened =
        ({ out := report.write.pretty ++ "\n" }, after) ∧
      after.look path = .ok text.toUTF8 ∧
      (Node.readLines text).map (·.without "ts_ms") = rs.map LogRecord.node ∧
      rs = (s.chapters scenario.steps).flatten ++ [Simulation.reportRecord report] ∧
      rs.filter (·.event = "step") = scenario.steps.map (fun step => ⟨"step", step.write⟩) ∧
      (rs.filter (·.event = "hotplug_event")).length = report.hotplugEvents ∧
      rs.filter (·.event = "report") = [Simulation.reportRecord report] := by
  obtain ⟨s, hnew, ⟨report, hrun⟩, -⟩ := runs_iff_valid hvalid settings
  obtain ⟨hdone, rfl, hrs⟩ := Simulation.run_eq_ok hrun
  obtain ⟨rfl, content, hholds⟩ := FileTree.holds_of_openFile hopen
  obtain rfl : content = .empty := Except.ok.inj (hholds.look.symm.trans hfresh)
  have hrecords : (s.runSteps scenario.steps).1.records = (s.chapters scenario.steps).flatten := by
    rw [Simulation.records_runSteps hdone, Simulation.eq_opening hnew,
      Simulation.records_opening, List.nil_append]
  obtain ⟨after, times, hlogged, hlength, hafter⟩ := hholds.logAll time
    ((s.runSteps scenario.steps).1.records ++
      [Simulation.reportRecord (s.runSteps scenario.steps).1.report])
  rw [ByteArray.empty_append] at hafter
  refine ⟨s, _, _, _, after, hnew, hrs, ?_, hafter.look, LogRecord.readLines_join hlength, ?_, ?_,
    ?_, ?_⟩
  · unfold CommandLine.simulate
    rw [hnew]
    simp only [hrs, bind, StateT.bind, hlogged]
    rfl
  · rw [hrecords]
  · rw [hrecords, List.filter_append, Simulation.filter_step_chapters]
    exact List.append_nil _
  · rw [List.filter_append, List.length_append, Simulation.notices_records]
    rfl
  · rw [List.filter_append, Simulation.filter_report_records]
    rfl

/-- A sink is noticed during the step of its interrupt, and the pin is disabled after that. -/
theorem log_tells_run_replugged :
    let scenario : Scenario :=
      { connectors := [{ name := "DP-1", pin := some .portC }]
        steps := [.init, .plug "DP-1" true, .irq [.portC] [] 1, .disablePin .portC, .wait 10] }
    let host := FileTree.hostAt fun t => t.entries.length
    scenario.validate = .ok () ∧
      ∃ opened, EventLog.openFile host "run.jsonl" .empty = (.ok ⟨some "run.jsonl"⟩, opened) ∧
        opened.look "run.jsonl" = .ok .empty ∧
        ∃ s report rs text after,
          Simulation.new scenario {} = .ok s ∧ s.run scenario.steps = (.ok report, rs) ∧
          CommandLine.simulate host ⟨some "run.jsonl"⟩ scenario {} opened =
            ({ out := report.write.pretty ++ "\n" }, after) ∧
          after.look "run.jsonl" = .ok text.toUTF8 ∧
          (Node.readLines text).map (·.without "ts_ms") = rs.map LogRecord.node ∧
          rs = (s.chapters scenario.steps).flatten ++ [Simulation.reportRecord report] ∧
          rs.filter (·.event = "step") = scenario.steps.map (fun step => ⟨"step", step.write⟩) ∧
          (rs.filter (·.event = "hotplug_event")).length = report.hotplugEvents ∧
          rs.filter (·.event = "report") = [Simulation.reportRecord report] ∧
          rs.map (·.event) = ["step", "step", "step", "hotplug_event", "step", "disable_pin",
            "step", "report"] := by
  intro scenario host
  have hvalid : scenario.validate = .ok () := by rfl
  obtain ⟨opened, hopen, hfresh⟩ := FileTree.openFile_of_new .empty "run.jsonl"
    ["work", "run.jsonl"] (fun t => t.entries.length) (by decide +kernel) (by decide +kernel)
    (by decide +kernel)
  obtain ⟨s, report, rs, text, after, hnew, hrun, hlogged, hfile, hread, hchapters, hsteps,
    hnotices, hreport⟩ := log_tells_run hvalid {} hopen hfresh
  obtain rfl := Simulation.eq_opening hnew
  have htold : ((Simulation.opening scenario {}).chapters scenario.steps).flatten.map (·.event) =
      ["step", "step", "step", "hotplug_event", "step", "disable_pin", "step"] := by decide +kernel
  refine ⟨hvalid, opened, hopen, hfresh, _, report, rs, text, after, hnew, hrun, hlogged, hfile,
    hread, hchapters, hsteps, hnotices, hreport, ?_⟩
  rw [hchapters, List.map_append, htold]
  rfl

end Scenario

end HotplugDetect
