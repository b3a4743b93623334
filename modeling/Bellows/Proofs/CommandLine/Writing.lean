import Bellows.Proofs.CommandLine.Runs

/-! What the runs of the program leave behind. A run that is not done leaves every file as it was;
one that is done has written its whole result to one place and nothing else. A host may refuse any
of the writes; what it does not refuse is written as a whole. It must be able to print the lines by
which a run says that its result is written, for they come too late to leave it unwritten. -/
namespace Bellows

namespace CommandLine

/-- A plan that writes what is made and is done then, which nothing but a verdict follows, and that
otherwise fails. -/
def Plan.AllOrNothing (Makes : Path → String → Prop) (Verdict : String → Prop) : Plan → Prop
  | .finish report => report.ending.status ≠ 0
  | .write path text before report => Makes path text ∧ (report none).ending.status = 0 ∧
    (∀ line ∈ (report none).answerLines, line ∈ before.answerLines ∨ Verdict line) ∧
    ∀ fault, (report (some fault)).ending.status ≠ 0

/-- Storing what is made is all or nothing, also where the path breaks the run off. -/
theorem Plan.allOrNothing_store {Makes : Path → String → Prop} {Verdict : String → Prop}
    {path : Path} {text : String} {before : Report} {report : Option WriteFault → Report}
    (hmakes : Makes path text) (hdone : (report none).ending.status = 0)
    (hlines : ∀ line ∈ (report none).answerLines, line ∈ before.answerLines ∨ Verdict line)
    (hfails : ∀ fault, (report (some fault)).ending.status ≠ 0) :
    (store path text before report).AllOrNothing Makes Verdict := by
  by_cases hzero : '\x00' ∈ path.text.toList
  · rw [store_of_mem hzero]
    exact Nat.one_ne_zero
  · rw [store_of_not_mem hzero]
    exact ⟨hmakes, hdone, hlines, hfails⟩

/-- A report that is not done is not done either as far as it is printed. -/
theorem Report.status_printed {r : Report} (host : Host) (h : r.ending.status ≠ 0) :
    (r.printed host).ending.status ≠ 0 := by
  obtain hsame | ⟨_, _, hbroken⟩ := r.ending_printed host
  · rwa [hsame]
  · rw [hbroken]
    exact Nat.one_ne_zero

theorem Ending.status_ofScoreFile (fault : ScoreFileFault) : (ofScoreFile fault).status ≠ 0 := by
  cases fault <;> exact Nat.one_ne_zero

/-- A step of a task that is not done when it fails. -/
def Unfinished {α : Type} (x : Except Ending α) : Prop :=
  ∀ ending, x = .error ending → ending.status ≠ 0

namespace Unfinished

variable {α β : Type} {x : Except Ending α}

theorem ok (a : α) : Unfinished (.ok a : Except Ending α) := fun _ h => nomatch h

theorem error {ending : Ending} (h : ending.status ≠ 0) :
    Unfinished (.error ending : Except Ending α) := by
  rintro _ ⟨⟩
  exact h

theorem bind {f : α → Except Ending β} (h : Unfinished x) (hnext : ∀ a, Unfinished (f a)) :
    Unfinished (x >>= f) := by
  cases x with
  | ok a => exact hnext a
  | error ending => exact .error (h ending rfl)

end Unfinished

namespace ConvertJob

variable {host : Host} {job : ConvertJob} {s : Settings}

/-- A conversion makes the text of the schedule that its score becomes with its settings, and writes
it to the path that is given, or beside the score. -/
inductive Makes (host : Host) (job : ConvertJob) : Path → String → Prop
  | schedule {s : Settings} {pace : Pace} {score : Score} {schedule : Schedule} {path : Path}
    (hsettings : job.settings host = .ok s) (hpace : s.pace = .ok pace)
    (hscore : Score.ofOctets host.codecs Score.defaultOrnament job.scoreOctets = .ok score)
    (hconvert : s.convert pace Axis.defaultTolerance score = .ok schedule)
    (htarget : job.IsTarget path) : Makes host job path (schedule.render (some 2))

theorem status_parameterEnding (fault : ParameterFileFault) :
    (parameterEnding fault).status ≠ 0 := by
  unfold parameterEnding
  split <;> exact Nat.one_ne_zero

theorem status_conversionEnding (fault : ConversionFault) :
    (conversionEnding fault).status ≠ 0 := by
  cases fault <;> exact Nat.one_ne_zero

/-- A compilation fails, or it makes a schedule of the settings and the score. -/
theorem compile_cases (host : Host) (job : ConvertJob) (s : Settings) :
    (∃ ending, (job.compile host s).2 = .error ending ∧ ending.status ≠ 0) ∨
    ∃ pace score schedule, s.pace = .ok pace ∧
      Score.ofOctets host.codecs Score.defaultOrnament job.scoreOctets = .ok score ∧
      s.convert pace Axis.defaultTolerance score = .ok schedule ∧
      (job.compile host s).2 = .ok schedule := by
  cases hpace : s.pace with
  | error fault => exact Or.inl ⟨_, compile_of_pace_error hpace, Nat.one_ne_zero⟩
  | ok pace =>
    cases hscore : Score.ofOctets host.codecs Score.defaultOrnament job.scoreOctets with
    | error fault =>
      exact Or.inl ⟨_, compile_of_score_error hpace hscore, Ending.status_ofScoreFile fault⟩
    | ok score =>
      cases hconvert : s.convert pace Axis.defaultTolerance score with
      | error fault =>
        exact Or.inl ⟨_, compile_of_convert_error hpace hscore hconvert,
          status_conversionEnding fault⟩
      | ok schedule =>
        exact Or.inr ⟨pace, score, schedule, rfl, rfl, hconvert,
          compile_of_convert hpace hscore hconvert⟩

/-- Where a schedule is written, a verdict follows what is printed up to there. -/
theorem mem_written (job : ConvertJob) (before : Report) :
    ∀ line ∈ (job.written before none).answerLines,
      line ∈ before.answerLines ∨ line ∈ verdict := by
  intro line hline
  obtain hahead | hlines := List.mem_append.mp hline
  · exact Or.inl (List.mem_append_left _ hahead)
  · obtain hbefore | hverdict := List.mem_append.mp hlines
    · exact Or.inl (List.mem_append_right _ hbefore)
    · exact Or.inr hverdict

theorem allOrNothing_plan (host : Host) (job : ConvertJob) :
    (job.plan host).AllOrNothing (Makes host job) (· ∈ verdict) := by
  cases h : job.settings host with
  | error fault =>
    rw [plan_of_settings_error h]
    exact status_parameterEnding fault
  | ok s =>
    cases hline : tempoLine s with
    | error fault =>
      rw [plan_of_tempoLine_error h hline]
      exact Nat.one_ne_zero
    | ok line =>
      obtain ⟨ending, hcompile, hstatus⟩ | ⟨_, _, _, hpace, hscore, hconvert, hcompile⟩ :=
        compile_cases host job s
      · obtain ⟨report, hplan, rfl⟩ := plan_of_compile_error h hline hcompile
        rw [hplan]
        exact hstatus
      · obtain ⟨before, hplan⟩ := plan_of_compile h hline hcompile
        rw [hplan]
        have hmakes : Makes host job _ _ :=
          .schedule h hpace hscore hconvert (isTarget_iff.mpr rfl)
        exact Plan.allOrNothing_store hmakes rfl (mem_written job before) fun _ => Nat.one_ne_zero

end ConvertJob

namespace Inspecting

theorem status_documentEnding (fault : DocumentFault) : (documentEnding fault).status ≠ 0 := by
  cases fault <;> exact Nat.one_ne_zero

theorem unfinished_readText (host : Host) (text : String) : Unfinished (readText host text) := by
  unfold readText
  split
  · exact .ok _
  · split
    · next v _ =>
      cases Document.decode v with
      | ok s => exact .ok s
      | error fault => exact .error (status_documentEnding fault)
    · next fault _ => cases fault <;> exact .error Nat.one_ne_zero
  · exact .error (status_documentEnding _)

theorem unfinished_readSchedule (host : Host) (octets : List UInt8) :
    Unfinished (readSchedule host octets) := by
  unfold readSchedule
  split
  · exact .error Nat.one_ne_zero
  · exact unfinished_readText host _

end Inspecting

namespace ExportJob

variable {host : Host} {job : ExportJob} {s : Schedule} {rows : List Row}

/-- An export makes the text of the rows of its role, which are valid, and writes it to the path
that is given, or beside the schedule. -/
inductive Makes (host : Host) (job : ExportJob) : Path → String → Prop
  | rows {s : Schedule} {rows : List Row} {path : Path}
    (hread : Inspecting.Reads host job.octets s) (hrows : s.rows job.role = .ok rows)
    (hvalid : Row.fault? (rows.map Row.entries) = none) (htarget : job.IsTarget path) :
    Makes host job path (Json.render (some 2) (.list (rows.map fun row => .map row.entries)))

/-- The line that says that the rows of a job are written, to wherever they go. -/
inductive Verdict (job : ExportJob) : String → Prop
  | wrote {output : String} (htarget : job.target = .ok output) (ticks : Nat) :
    Verdict job (verdict output ticks)

theorem unfinished_rowsOf (job : ExportJob) (s : Schedule) : Unfinished (job.rowsOf s) := by
  unfold rowsOf
  split
  · exact .error Nat.one_ne_zero
  · exact .error Nat.one_ne_zero
  · split
    · exact .ok _
    · exact .error Nat.one_ne_zero

theorem unfinished_compile (host : Host) (job : ExportJob) : Unfinished (job.compile host) := by
  refine (Inspecting.unfinished_readSchedule host job.octets).bind fun s => ?_
  refine Unfinished.bind ?_ fun _ => Unfinished.bind ?_ fun output =>
    (job.unfinished_rowsOf s).bind fun rows => .ok _
  · unfold knownRole
    split
    · exact .ok _
    · exact .error Nat.one_ne_zero
  · cases job.target with
    | ok output => exact .ok _
    | error fault => exact .error Nat.one_ne_zero

theorem compile_eq_ok {output : String} (h : job.compile host = .ok (output, s, rows)) :
    Inspecting.readSchedule host job.octets = .ok s ∧ job.target = .ok output ∧
      job.rowsOf s = .ok rows := by
  obtain ⟨s', hread, h⟩ := exists_of_bind_eq_ok h
  obtain ⟨_, _, h⟩ := exists_of_bind_eq_ok h
  obtain ⟨output', htarget, h⟩ := exists_of_bind_eq_ok h
  obtain ⟨rows', hrows, h⟩ := exists_of_bind_eq_ok h
  cases h
  refine ⟨hread, ?_, hrows⟩
  cases hjob : job.target with
  | ok output =>
    rw [hjob] at htarget
    cases htarget
    rfl
  | error fault =>
    rw [hjob] at htarget
    cases htarget

theorem allOrNothing_plan (host : Host) (job : ExportJob) :
    (job.plan host).AllOrNothing (Makes host job) job.Verdict := by
  cases h : job.compile host with
  | error ending =>
    rw [plan_of_compile_error h]
    exact unfinished_compile host job ending h
  | ok made =>
    obtain ⟨output, s, rows⟩ := made
    obtain ⟨hread, htarget, hrowsOf⟩ := compile_eq_ok h
    obtain ⟨hrows, hvalid⟩ := rowsOf_eq_ok_iff.mp hrowsOf
    have hmakes : Makes host job _ _ := .rows (Inspecting.reads_of_readSchedule hread) hrows hvalid
      (isTarget_iff.mpr ⟨output, htarget, rfl⟩)
    have hverdict : ∀ line ∈ (written output s.time.length none).answerLines, job.Verdict line :=
      List.forall_mem_singleton.mpr (.wrote htarget s.time.length)
    rw [plan_of_compile h]
    exact Plan.allOrNothing_store hmakes rfl (fun line hline => Or.inr (hverdict line hline))
      fun _ => Nat.one_ne_zero

end ExportJob

/-- The tasks that have a result to write. -/
def Task.Writes : Task → Prop
  | convert .. | rows .. => True
  | parts _ | check _ => False

/-- What a task makes of the files that it reads, and where it is to be written. -/
inductive Task.Makes (host : Host) (files : String → Entry) : Task → Path → String → Prop
  | convert {score config : String} {scoreOctets configOctets : List UInt8} {bpm : Option Int}
    {step : Option Binary64} {output : Option String} {path : Path} {text : String}
    (hscore : files score = .file scoreOctets) (hconfig : files config = .file configOctets)
    (h : ConvertJob.Makes host ⟨score, config, scoreOctets, configOctets, bpm, step, output⟩
      path text) :
    Makes host files (.convert score config bpm step output) path text
  | rows {schedule role : String} {octets : List UInt8} {output : Option String} {path : Path}
    {text : String} (hschedule : files schedule = .file octets)
    (h : ExportJob.Makes host ⟨schedule, octets, role, output⟩ path text) :
    Makes host files (.rows schedule role output) path text

/-- The lines by which a task says that its result is written. -/
inductive Task.Verdict : Task → String → Prop
  | convert {score config line : String} {bpm : Option Int} {step : Option Binary64}
    {output : Option String} (h : line ∈ ConvertJob.verdict) :
    Verdict (.convert score config bpm step output) line
  | rows {schedule role line : String} {octets : List UInt8} {output : Option String}
    (h : ExportJob.Verdict ⟨schedule, octets, role, output⟩ line) :
    Verdict (.rows schedule role output) line

/-- A host that can print the lines by which a run says that its result is written. -/
def Host.ShowsVerdict (host : Host) (arguments : List String) : Prop :=
  ∀ verbose task, Invocation.ofArguments arguments = .ok (.task verbose task) →
    ∀ line, task.Verdict line → host.Shows line

theorem Plan.AllOrNothing.imp {p : Plan} {Makes Makes' : Path → String → Prop}
    {Verdict Verdict' : String → Prop} (h : p.AllOrNothing Makes Verdict)
    (hmakes : ∀ path text, Makes path text → Makes' path text)
    (hverdict : ∀ line, Verdict line → Verdict' line) : p.AllOrNothing Makes' Verdict' := by
  cases p with
  | finish report => exact h
  | write path text before report =>
    obtain ⟨hmade, hdone, hlines, hfails⟩ := h
    exact ⟨hmakes path text hmade, hdone,
      fun line hline => (hlines line hline).imp_right (hverdict line), hfails⟩

theorem octetsOf_eq_ok {files : String → Entry} {path : String} {octets : List UInt8}
    (h : octetsOf files path = .ok octets) : files path = .file octets := by
  unfold octetsOf at h
  split at h
  · next hfile =>
    cases h
    exact hfile
  · cases h
  · cases h

/-- A task comes to a report, or it has a result that it writes as a whole or not at all. -/
theorem Task.plan_eq_ok {host : Host} {files : String → Entry} {task : Task} {p : Plan}
    (h : task.plan host files = .ok p) :
    (¬ task.Writes ∧ ∃ report, p = .finish report) ∨
      task.Writes ∧ p.AllOrNothing (task.Makes host files) task.Verdict := by
  cases task with
  | convert score config bpm step output =>
    obtain ⟨scoreOctets, hscore, h⟩ := exists_of_bind_eq_ok h
    obtain ⟨configOctets, hconfig, h⟩ := exists_of_bind_eq_ok h
    cases h
    exact Or.inr ⟨trivial, (ConvertJob.allOrNothing_plan host _).imp
      (fun _ _ => .convert (octetsOf_eq_ok hscore) (octetsOf_eq_ok hconfig)) fun _ => .convert⟩
  | parts score =>
    obtain ⟨octets, _, h⟩ := exists_of_bind_eq_ok h
    cases h
    exact Or.inl ⟨id, _, rfl⟩
  | check schedule =>
    obtain ⟨octets, _, h⟩ := exists_of_bind_eq_ok h
    cases h
    exact Or.inl ⟨id, _, rfl⟩
  | rows schedule role output =>
    obtain ⟨octets, hschedule, h⟩ := exists_of_bind_eq_ok h
    cases h
    exact Or.inr ⟨trivial, (ExportJob.allOrNothing_plan host _).imp
      (fun _ _ => .rows (octetsOf_eq_ok hschedule)) fun _ => .rows⟩

end CommandLine

namespace Folder

open CommandLine

/-- The status that a run ends with; arguments that cannot be understood have one of their own. -/
def status (host : Host) (f : Folder) (arguments : List String) : Nat :=
  match f.run host arguments with
  | .ok (outcome, _) => outcome.ending.status
  | .error _ => 2

/-- The folder that a run leaves behind. -/
def after (host : Host) (f : Folder) (arguments : List String) : Folder :=
  match f.run host arguments with
  | .ok (_, g) => g
  | .error _ => f

variable {host : Host} {f : Folder} {p : Plan} {arguments : List String}

/-- What a host writes is all that is changed. -/
theorem written_of_hostWrite {g : Folder} {path : Path} {text : String}
    (h : host.write f path text = .ok g) : ∃ place, f.Written host.here path text place g := by
  unfold Host.write at h
  split at h
  · cases h
  · exact written_of_write h

/-- Carried out, a plan that is not done changes nothing, and one that is done has written what is
made. -/
theorem carryOut_cases {Makes : Path → String → Prop} {Verdict : String → Prop}
    (hverdict : ∀ line, Verdict line → host.Shows line) (f : Folder)
    (h : p.AllOrNothing Makes Verdict) :
    ((carryOut host f p).1.ending.status ≠ 0 ∧ (carryOut host f p).2 = f) ∨
    ((carryOut host f p).1.ending.status = 0 ∧ ∃ path text place, Makes path text ∧
      f.Written host.here path text place (carryOut host f p).2) := by
  cases p with
  | finish report => exact Or.inl ⟨Report.status_printed host h, rfl⟩
  | write path text before report =>
    obtain ⟨hmakes, hdone, hlines, hfails⟩ := h
    cases hcut : before.cut? host with
    | some cut =>
      obtain ⟨_, _, _, hending⟩ := Report.cut?_eq_some hcut
      rw [carryOut_of_cut hcut, hending]
      exact Or.inl ⟨Nat.one_ne_zero, rfl⟩
    | none =>
      cases hwrite : host.write f path text with
      | error fault =>
        rw [carryOut_of_refusal hcut hwrite]
        exact Or.inl ⟨Report.status_printed host (hfails fault), rfl⟩
      | ok g =>
        obtain ⟨place, hwritten⟩ := written_of_hostWrite hwrite
        -- what was printed in front of the writing can be printed, and so can the verdict
        have hshown : (report none).printed host = report none :=
          Report.printed_of_shows fun line hline =>
            (hlines line hline).elim (Report.cut?_eq_none_iff.mp hcut line) (hverdict line)
        rw [carryOut_of_write hcut hwrite, hshown]
        exact Or.inr ⟨hdone, path, text, place, hmakes, hwritten⟩

/-- What one run does: nothing to any file, unless it is a task with a result, which is done then
and has been written to one place. -/
inductive Step (host : Host) (f : Folder) (arguments : List String) : Folder → Prop
  | unchanged (h : ∀ verbose task, Invocation.ofArguments arguments = .ok (.task verbose task) →
      task.Writes → f.status host arguments ≠ 0) : Step host f arguments f
  | written {verbose : Bool} {task : Task} {path : Path} {text : String} {place : List String}
    {g : Folder} (hi : Invocation.ofArguments arguments = .ok (.task verbose task))
    (hwrites : task.Writes) (hstatus : f.status host arguments = 0)
    (hmakes : task.Makes host (host.entry f) path text)
    (hwritten : f.Written host.here path text place g) : Step host f arguments g

theorem status_of_run {outcome : Outcome} {g : Folder}
    (h : f.run host arguments = .ok (outcome, g)) :
    f.status host arguments = outcome.ending.status := by
  rw [status, h]

theorem after_of_run {outcome : Outcome} {g : Folder}
    (h : f.run host arguments = .ok (outcome, g)) : f.after host arguments = g := by
  rw [after, h]

/-- Arguments that cannot be understood, or name a file that is not there, change nothing. -/
theorem step_of_usageFault {fault : UsageFault} (h : f.run host arguments = .error fault) :
    f.Step host arguments (f.after host arguments) := by
  have hstatus : f.status host arguments ≠ 0 := by
    rw [status, h]
    exact Nat.succ_ne_zero 1
  rw [after, h]
  exact .unchanged fun _ _ _ _ => hstatus

/-- A task over files that are there comes to a report, or writes its result if that can be done. -/
theorem step_of_plan {verbose : Bool} {task : Task}
    (hverdict : host.ShowsVerdict arguments)
    (hi : Invocation.ofArguments arguments = .ok (.task verbose task))
    (hplan : task.plan host (host.entry f) = .ok p) :
    f.Step host arguments (f.after host arguments) := by
  have hrun := run_of_plan hi hplan
  rw [after_of_run hrun]
  obtain ⟨hreads, report, rfl⟩ | ⟨hwrites, hall⟩ := Task.plan_eq_ok hplan
  · refine .unchanged fun _ _ h hwrites => ?_
    cases hi.symm.trans h
    exact (hreads hwrites).elim
  · obtain ⟨hstatus, hsame⟩ | ⟨hstatus, path, text, place, hmakes, hwritten⟩ :=
      carryOut_cases (hverdict verbose task hi) f hall
    · rw [hsame]
      exact .unchanged fun _ _ _ _ => (status_of_run hrun).trans_ne hstatus
    · exact .written hi hwrites ((status_of_run hrun).trans hstatus) hmakes hwritten

/-- Every run is one step. -/
theorem step_after (hverdict : host.ShowsVerdict arguments) (f : Folder) :
    f.Step host arguments (f.after host arguments) := by
  cases hi : Invocation.ofArguments arguments with
  | error fault =>
    have hrun : f.run host arguments = .error fault := by
      rw [run, hi]
      rfl
    exact step_of_usageFault hrun
  | ok i =>
    cases i with
    | version | manual verb =>
      have hrun : ∃ outcome, f.run host arguments = .ok (outcome, f) := by
        rw [run, hi]
        exact ⟨_, rfl⟩
      obtain ⟨_, hrun⟩ := hrun
      rw [after_of_run hrun]
      refine .unchanged fun _ _ h => ?_
      cases hi.symm.trans h
    | task verbose task =>
      cases hplan : task.plan host (host.entry f) with
      | error fault =>
        have hrun : f.run host arguments = .error fault := by
          rw [run, hi]
          change (task.plan host (host.entry f) >>= _) = _
          rw [hplan]
          rfl
        exact step_of_usageFault hrun
      | ok p => exact step_of_plan hverdict hi hplan

/-- The folder that runs leave behind, one after the other; each may find the host in another
state. -/
def afterAll (f : Folder) (runs : List (Host × List String)) : Folder :=
  runs.foldl (fun g (host, arguments) => g.after host arguments) f

theorem afterAll_concat (f : Folder) (runs : List (Host × List String)) (host : Host)
    (arguments : List String) :
    f.afterAll (runs ++ [(host, arguments)]) = (f.afterAll runs).after host arguments := by
  rw [afterAll, List.foldl_append]
  rfl

/-- The octets are the whole result of one of the runs, made of the files that it found. -/
inductive Result (f : Folder) (runs : List (Host × List String)) : List UInt8 → Prop
  | made {before behind : List (Host × List String)} {host : Host} {arguments : List String}
    {verbose : Bool} {task : Task} {path : Path} {text : String}
    (hruns : runs = before ++ (host, arguments) :: behind)
    (hi : Invocation.ofArguments arguments = .ok (.task verbose task))
    (hstatus : (f.afterAll before).status host arguments = 0)
    (hmakes : task.Makes host (host.entry (f.afterAll before)) path text) :
    Result f runs text.toUTF8.toList

theorem Result.concat {runs : List (Host × List String)} {octets : List UInt8}
    (h : f.Result runs octets) (run : Host × List String) : f.Result (runs ++ [run]) octets := by
  cases h with
  | @made before behind host earlier _ _ _ _ hruns hi hstatus hmakes =>
    have hruns : runs ++ [run] = before ++ (host, earlier) :: (behind ++ [run]) := by
      rw [hruns, List.append_assoc, List.cons_append]
    exact .made hruns hi hstatus hmakes

/-- After any number of runs a place holds what it held in front of them, or the whole result of
one that was done. -/
theorem item?_afterAll (f : Folder) (runs : List (Host × List String))
    (hverdict : ∀ run ∈ runs, run.1.ShowsVerdict run.2) (place : List String) :
    (f.afterAll runs).item? place = f.item? place ∨
    ∃ octets, (f.afterAll runs).item? place = some (.file octets) ∧ f.Result runs octets := by
  induction runs using List.reverseRecOn with
  | nil => exact Or.inl rfl
  | append_singleton runs run ih =>
    obtain ⟨host, arguments⟩ := run
    have hlast := hverdict _ (List.mem_append_right runs (List.mem_singleton_self _))
    replace ih := ih fun run hrun => hverdict run (List.mem_append_left _ hrun)
    have hstep := step_after hlast (f.afterAll runs)
    rw [← afterAll_concat] at hstep
    generalize f.afterAll (runs ++ [(host, arguments)]) = g at hstep ⊢
    have hkept : g.item? place = (f.afterAll runs).item? place → g.item? place = f.item? place ∨
        ∃ octets, g.item? place = some (.file octets) ∧
          f.Result (runs ++ [(host, arguments)]) octets := by
      intro hsame
      obtain hitem | ⟨octets, hitem, hresult⟩ := ih
      · exact Or.inl (hsame.trans hitem)
      · exact Or.inr ⟨octets, hsame.trans hitem, hresult.concat (host, arguments)⟩
    cases hstep with
    | unchanged h => exact hkept rfl
    | @written _ _ path text written g hi hwrites hstatus hmakes hwritten =>
      by_cases hplace : place = written
      · subst hplace
        exact Or.inr ⟨_, hwritten.item_self, .made rfl hi hstatus hmakes⟩
      · exact hkept (hwritten.item_other place hplace)

end Folder
end Bellows
