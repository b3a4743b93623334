import Bellows.Main
import Bellows.Proofs.CommandLine.Converting
import Bellows.Proofs.CommandLine.Exporting
import Bellows.Proofs.CommandLine.Folder
import Bellows.Proofs.Encoding.Unicode

/-! How the runs of the program end: done, refused with a line that says why, or broken off by one
of the listed faults of the files or by a line that cannot be printed. This holds on every host,
whatever it makes of parameter files and of encodings, and whatever it does not let the program
write or print. Nesting that is too deep for an interpreter with a limit of recursion is left
out. -/
namespace Bellows

namespace CommandLine

/-- What breaks a task off over the files that it reads. -/
inductive Task.Breaks (host : Host) (files : String → Entry) : Task → Breakdown → Prop
  | convert {score config : String} {scoreOctets configOctets : List UInt8} {bpm : Option Int}
    {step : Option Binary64} {output : Option String} {fault : Breakdown}
    (hscore : files score = .file scoreOctets) (hconfig : files config = .file configOctets)
    (h : ConvertJob.Breaks host ⟨score, config, scoreOctets, configOctets, bpm, step, output⟩
      fault) :
    Breaks host files (.convert score config bpm step output) fault
  | parts {score kind message : String} {octets : List UInt8}
    (hscore : files score = .file octets)
    (h : Encoding.decode host.codecs octets = .error (.unforeseen kind message)) :
    Breaks host files (.parts score) (.foreign kind message)
  | check {schedule : String} {octets : List UInt8} {fault : Breakdown}
    (hschedule : files schedule = .file octets) (h : Inspecting.Breaks host octets fault) :
    Breaks host files (.check schedule) fault
  | rows {schedule role : String} {octets : List UInt8} {output : Option String}
    {fault : Breakdown} (hschedule : files schedule = .file octets)
    (h : ExportJob.Breaks host ⟨schedule, octets, role, output⟩ fault) :
    Breaks host files (.rows schedule role output) fault

/-- How printing a line of a task fails on a host. -/
def Task.FailsToPrint (host : Host) (f : Folder) (task : Task) (fault : Breakdown) : Prop :=
  ∃ p, task.plan host (host.entry f) = .ok p ∧ p.FailsToPrint host f fault

/-- What becomes of a run of a task. It prints nothing that cannot be printed. It is broken off only
for what breaks the task off, or where a line of it cannot be printed; neither of the two is ever
passed over; and a run that is not broken off does its task, or fails with status one and a line
that tells an error. -/
structure Task.Ends (host : Host) (f : Folder) (task : Task) (outcome : Outcome) : Prop where
  shown : ∃ lines, outcome.answer = Report.text lines ∧
    ∀ line ∈ lines, host.unprintable line = none
  broken : ∀ fault, outcome.ending = .broken fault →
    task.Breaks host (host.entry f) fault ∨ task.FailsToPrint host f fault
  breaks : ∀ fault, task.Breaks host (host.entry f) fault → outcome.ending = .broken fault ∨
    ∃ fault', task.FailsToPrint host f fault' ∧ outcome.ending = .broken fault'
  stopped : ∀ fault, task.FailsToPrint host f fault → ∃ fault', outcome.ending = .broken fault'
  told : (∀ fault, outcome.ending ≠ .broken fault) → outcome.ending.status = 0 ∨
    outcome.ending.status = 1 ∧ HasLine "  ERROR: " outcome.remarks

variable {host : Host} {files : String → Entry} {task : Task} {fault : Breakdown}

/-- A report that ends in order shows success by its status, or tells an error. -/
theorem Report.told_of_orderly {r : Report} (h : r.ending.Orderly) (verbose : Bool) :
    (r.outcome verbose).ending.status = 0 ∨
      (r.outcome verbose).ending.status = 1 ∧ HasLine "  ERROR: " (r.outcome verbose).remarks := by
  change r.ending.status = 0 ∨ r.ending.status = 1 ∧ HasLine "  ERROR: " (r.remarks verbose)
  generalize hending : r.ending = ending at h ⊢
  cases h with
  | done => exact Or.inl rfl
  | refused hne => exact Or.inr ⟨rfl, hasLine_remarks hending hne verbose⟩

theorem octetsOf_of_file {path : String} {octets : List UInt8} (h : files path = .file octets) :
    octetsOf files path = .ok octets := by
  rw [octetsOf, h]

/-- A task over files that are there comes to a plan. -/
theorem Task.exists_plan (host : Host)
    (hfiles : ∀ path ∈ task.inputs, ∃ octets, files path = .file octets) :
    ∃ p, task.plan host files = .ok p ∧ (p.Orderly ∨ ∃ fault, task.Breaks host files fault) ∧
      ∀ fault, task.Breaks host files fault → p.BreaksWith fault := by
  cases task with
  | convert score config bpm step output =>
    obtain ⟨scoreOctets, hscore⟩ := hfiles score List.mem_cons_self
    obtain ⟨configOctets, hconfig⟩ := hfiles config (List.mem_cons_of_mem _ List.mem_cons_self)
    refine ⟨ConvertJob.plan ⟨score, config, scoreOctets, configOctets, bpm, step, output⟩ host,
      ?_, ?_, ?_⟩
    · rw [plan, octetsOf_of_file hscore, octetsOf_of_file hconfig]
      rfl
    · exact (ConvertJob.plan_cases host _).imp_right fun ⟨fault, h⟩ =>
        ⟨fault, .convert hscore hconfig h⟩
    · intro fault hbreaks
      cases hbreaks with
      | convert hscore' hconfig' h =>
        cases hscore.symm.trans hscore'
        cases hconfig.symm.trans hconfig'
        exact ConvertJob.breaksWith_of_breaks h
  | parts score =>
    obtain ⟨octets, hscore⟩ := hfiles score List.mem_cons_self
    refine ⟨.finish (Inspecting.parts host octets), ?_, ?_, ?_⟩
    · rw [plan, octetsOf_of_file hscore]
      rfl
    · exact (Inspecting.parts_cases host octets).imp_right fun ⟨_, _, h⟩ => ⟨_, .parts hscore h⟩
    · intro fault hbreaks
      cases hbreaks with
      | parts hscore' h =>
        cases hscore.symm.trans hscore'
        exact ⟨_, rfl, Inspecting.parts_of_unforeseen h⟩
  | check schedule =>
    obtain ⟨octets, hschedule⟩ := hfiles schedule List.mem_cons_self
    refine ⟨.finish (Inspecting.check host octets), ?_, ?_, ?_⟩
    · rw [plan, octetsOf_of_file hschedule]
      rfl
    · exact (Inspecting.check_cases host octets).imp_right fun ⟨fault, h⟩ =>
        ⟨fault, .check hschedule h⟩
    · intro fault hbreaks
      cases hbreaks with
      | check hschedule' h =>
        cases hschedule.symm.trans hschedule'
        exact ⟨_, rfl, Inspecting.check_of_breaks h⟩
  | rows schedule role output =>
    obtain ⟨octets, hschedule⟩ := hfiles schedule List.mem_cons_self
    refine ⟨ExportJob.plan ⟨schedule, octets, role, output⟩ host, ?_, ?_, ?_⟩
    · rw [plan, octetsOf_of_file hschedule]
      rfl
    · exact (ExportJob.plan_cases host _).imp_right fun ⟨fault, h⟩ => ⟨fault, .rows hschedule h⟩
    · intro fault hbreaks
      cases hbreaks with
      | rows hschedule' h =>
        cases hschedule.symm.trans hschedule'
        exact ExportJob.breaksWith_of_breaks h

end CommandLine

namespace Folder

open CommandLine

variable {host : Host} {f g : Folder} {p : Plan} {arguments : List String} {task : Task}
  {verbose : Bool} {fault : Breakdown} {path : Path} {text : String} {before cut : Report}
  {report : Option WriteFault → Report} {reason : WriteFault}

theorem carryOut_of_cut (h : before.cut? host = some cut) :
    carryOut host f (.write path text before report) = (cut, f) := by
  simp only [carryOut, h]

theorem carryOut_of_write (hcut : before.cut? host = none) (h : host.write f path text = .ok g) :
    carryOut host f (.write path text before report) = ((report none).printed host, g) := by
  simp only [carryOut, hcut, h]

theorem carryOut_of_refusal (hcut : before.cut? host = none)
    (h : host.write f path text = .error reason) :
    carryOut host f (.write path text before report) =
      ((report (some reason)).printed host, f) := by
  simp only [carryOut, hcut, h]

/-- A plan that ends in order does so when it is carried out, unless a line of it cannot be
printed. -/
theorem ending_carryOut_of_orderly (host : Host) (f : Folder) (h : p.Orderly) :
    (carryOut host f p).1.ending.Orderly ∨
      ∃ fault, p.FailsToPrint host f fault ∧ (carryOut host f p).1.ending = .broken fault := by
  cases p with
  | finish report =>
    obtain hsame | ⟨_, hfails, hending⟩ := report.ending_printed host
    · exact Or.inl (hsame ▸ h)
    · exact Or.inr ⟨_, .finish hfails, hending⟩
  | write path text before report =>
    cases hcut : before.cut? host with
    | some cut =>
      obtain ⟨_, _, hfails, hending⟩ := Report.cut?_eq_some hcut
      rw [carryOut_of_cut hcut]
      exact Or.inr ⟨_, .before hfails, hending⟩
    | none =>
      cases hwrite : host.write f path text with
      | ok g =>
        rw [carryOut_of_write hcut hwrite]
        obtain hsame | ⟨_, hfails, hending⟩ := (report none).ending_printed host
        · exact Or.inl (hsame ▸ h none)
        · exact Or.inr ⟨_, .written hwrite hfails, hending⟩
      | error reason =>
        rw [carryOut_of_refusal hcut hwrite]
        obtain hsame | ⟨_, hfails, hending⟩ := (report (some reason)).ending_printed host
        · exact Or.inl (hsame ▸ h (some reason))
        · exact Or.inr ⟨_, .refused hwrite hfails, hending⟩

/-- A plan of which a line cannot be printed is broken off when it is carried out. -/
theorem exists_broken_carryOut (h : p.FailsToPrint host f fault) :
    ∃ fault', (carryOut host f p).1.ending = .broken fault' := by
  cases p with
  | finish report =>
    cases h with
    | finish h => exact Report.exists_broken_printed h
  | write path text before report =>
    cases hcut : before.cut? host with
    | some cut =>
      obtain ⟨_, fault', _, hending⟩ := Report.cut?_eq_some hcut
      rw [carryOut_of_cut hcut]
      exact ⟨fault', hending⟩
    | none =>
      cases h with
      | before h => exact absurd (Report.cut?_eq_none_iff.mp hcut) h.not_shows
      | written hwrite h =>
        rw [carryOut_of_write hcut hwrite]
        exact Report.exists_broken_printed h
      | refused hwrite h =>
        rw [carryOut_of_refusal hcut hwrite]
        exact Report.exists_broken_printed h

/-- What a plan prints when it is carried out can be printed. -/
theorem shows_carryOut (host : Host) (f : Folder) (p : Plan) :
    ∀ line ∈ (carryOut host f p).1.answerLines, host.Shows line := by
  cases p with
  | finish report => exact report.shows_printed host
  | write path text before report =>
    cases hcut : before.cut? host with
    | some cut =>
      rw [carryOut_of_cut hcut]
      exact (Report.cut?_eq_some hcut).1
    | none =>
      cases hwrite : host.write f path text with
      | ok g =>
        rw [carryOut_of_write hcut hwrite]
        exact (report none).shows_printed host
      | error reason =>
        rw [carryOut_of_refusal hcut hwrite]
        exact (report (some reason)).shows_printed host

/-- What breaks a plan off breaks it off when it is carried out, unless a line in front of that
cannot be printed. -/
theorem ending_carryOut_of_breaksWith (host : Host) (f : Folder) (h : p.BreaksWith fault) :
    (carryOut host f p).1.ending = .broken fault ∨
      ∃ fault', p.FailsToPrint host f fault' ∧ (carryOut host f p).1.ending = .broken fault' := by
  obtain ⟨report, rfl, hending⟩ := h
  rw [← hending]
  exact (report.ending_printed host).imp_right fun ⟨fault', hfails, hcut⟩ =>
    ⟨fault', .finish hfails, hcut⟩

/-- A task over files that are there is carried out. -/
theorem run_of_plan (hi : Invocation.ofArguments arguments = .ok (.task verbose task))
    (hplan : task.plan host (host.entry f) = .ok p) :
    f.run host arguments = .ok ((carryOut host f p).1.outcome verbose, (carryOut host f p).2) := by
  rw [run, hi]
  change (task.plan host (host.entry f) >>= _) = _
  rw [hplan]
  rfl

/-- Every run of a task over files that are there comes to an end, on every host: it does its task,
or fails with status one and a line that tells an error, or it is broken off, which happens for the
listed faults of its files, or where a line of it cannot be printed, and for no other reason. -/
theorem run_ends (host : Host) (hi : Invocation.ofArguments arguments = .ok (.task verbose task))
    (hfiles : ∀ path ∈ task.inputs, ∃ octets, host.entry f path = .file octets) :
    ∃ outcome g, f.run host arguments = .ok (outcome, g) ∧ task.Ends host f outcome := by
  obtain ⟨p, hplan, hcases, hbreaks⟩ := Task.exists_plan host hfiles
  have hprints {fault} (h : p.FailsToPrint host f fault) : task.FailsToPrint host f fault :=
    ⟨p, hplan, h⟩
  have hbreak fault (h : task.Breaks host (host.entry f) fault) :=
    ending_carryOut_of_breaksWith host f (hbreaks fault h)
  refine ⟨_, _, run_of_plan hi hplan, ⟨_, rfl, ?shown⟩, ?broken, ?breaks, ?stopped, ?told⟩
  case shown =>
    exact List.forall_mem_map.mpr (shows_carryOut host f p)
  case broken =>
    intro fault (hbroken : (carryOut host f p).1.ending = .broken fault)
    obtain horderly | ⟨fault', hfault⟩ := hcases
    · obtain hending | ⟨_, hfails, hending⟩ := ending_carryOut_of_orderly host f horderly
      · rw [hbroken] at hending
        cases hending
      · cases hbroken.symm.trans hending
        exact Or.inr (hprints hfails)
    · obtain hending | ⟨_, hfails, hending⟩ := hbreak fault' hfault
      · cases hbroken.symm.trans hending
        exact Or.inl hfault
      · cases hbroken.symm.trans hending
        exact Or.inr (hprints hfails)
  case breaks =>
    exact fun fault h => (hbreak fault h).imp_right fun ⟨fault', hfails, hending⟩ =>
      ⟨fault', hprints hfails, hending⟩
  case stopped =>
    rintro fault ⟨p', hplan', hfails⟩
    cases hplan.symm.trans hplan'
    exact exists_broken_carryOut hfails
  case told =>
    intro hsound
    obtain horderly | ⟨fault', hfault⟩ := hcases
    · obtain hending | ⟨_, _, hending⟩ := ending_carryOut_of_orderly host f horderly
      · exact Report.told_of_orderly hending verbose
      · exact (hsound _ hending).elim
    · obtain hending | ⟨_, _, hending⟩ := hbreak fault' hfault
      · exact (hsound _ hending).elim
      · exact (hsound _ hending).elim

/-- A file is found on the disk under its name. -/
theorem entry_disk {name : String} {octets : List UInt8} (hname : Path.Names name)
    (hup : name ≠ "..") (hget : f.item? [name] = some (.file octets)) :
    disk.entry f name = .file octets := by
  have hplace : f.placeOf [] name = .ok [name] :=
    placeOf_name hname hup fun target hlink => by cases hget.symm.trans hlink
  rw [Host.entry, entry_eq, if_neg hname.1, disk, hplace, Except.toOption, Option.map_some, hget]

/-- A folder with an empty score and parameters for it. -/
def emptyScore : Folder :=
  Keyed.ofList [(["s"], .file "<score-partwise/>".toUTF8.toList),
    (["p"], .file "bpm: 9".toUTF8.toList)]

theorem run_ends_emptyScore :
    Invocation.ofArguments ["convert", "s", "-c", "p"] =
      .ok (.task false (.convert "s" "p" none none none)) ∧
    (∀ path ∈ (Task.convert "s" "p" none none none).inputs,
      ∃ octets, disk.entry emptyScore path = .file octets) ∧
    ∃ outcome g, emptyScore.run disk ["convert", "s", "-c", "p"] = .ok (outcome, g) ∧
      (Task.convert "s" "p" none none none).Ends disk emptyScore outcome := by
  have hi : Invocation.ofArguments ["convert", "s", "-c", "p"] =
      .ok (.task false (.convert "s" "p" none none none)) := rfl
  have hscore : disk.entry emptyScore "s" = .file "<score-partwise/>".toUTF8.toList :=
    entry_disk (by decide) (by decide) rfl
  have hconfig : disk.entry emptyScore "p" = .file "bpm: 9".toUTF8.toList :=
    entry_disk (by decide) (by decide) rfl
  have hfiles : ∀ path ∈ (Task.convert "s" "p" none none none).inputs,
      ∃ octets, disk.entry emptyScore path = .file octets :=
    List.forall_mem_cons.mpr ⟨⟨_, hscore⟩, List.forall_mem_singleton.mpr ⟨_, hconfig⟩⟩
  exact ⟨hi, hfiles, run_ends disk hi hfiles⟩

/-- A schedule of which a role has a stroke in its name. -/
def stroked : Schedule := ⟨[], Keyed.ofList [("/", [])]⟩

/-- The job of exporting that role. -/
def strokedExport : ExportJob :=
  ⟨"s", Encoding.encodeUtf8 (Schedule.render none stroked), "/", none⟩

/-- A folder with that schedule. -/
def strokedRole : Folder := Keyed.ofList [(["s"], .file strokedExport.octets)]

/-- An export breaks off without a line about it where its role has a stroke in its name. -/
theorem run_breaks_off_strokedRole : ∃ outcome g,
    strokedRole.run disk ["rows", "s", "--role", "/"] = .ok (outcome, g) ∧
      outcome.ending = .broken (.badName "s-/.rows.json") := by
  have hi : Invocation.ofArguments ["rows", "s", "--role", "/"] =
      .ok (.task false (.rows "s" "/" none)) := rfl
  have hfile : disk.entry strokedRole "s" = .file strokedExport.octets :=
    entry_disk (by decide) (by decide) rfl
  have hplan : (Task.rows "s" "/" none).plan disk (disk.entry strokedRole) =
      .ok (strokedExport.plan disk) := by
    rw [Task.plan, octetsOf_of_file hfile]
    rfl
  have htext : Encoding.decodeUtf8 strokedExport.octets = some (Schedule.render none stroked) :=
    Encoding.decodeUtf8_encodeUtf8 _
  -- what keeps to the format is read back from its text, so that no reader has to be evaluated
  have hformat : stroked.WellFormed := by constructor <;> decide +kernel
  have hjson : Json.read (Schedule.render none stroked) = .ok stroked.encode :=
    Json.read_render (Schedule.plain_encode hformat) none
  have hread : Schedule.read (Schedule.render none stroked) = .ok stroked := by
    simp only [Schedule.read, hjson, Schedule.decode_encode hformat]
  have hname : strokedExport.rowsName = "s-/.rows.json" := by
    have hpath : Path.ofText "s" = ⟨"", ["s"]⟩ := Path.ofText_name (by decide)
    rw [ExportJob.rowsName, strokedExport, hpath]
    decide +kernel
  have hbreaks : strokedExport.Breaks disk (.badName strokedExport.rowsName) :=
    .name (.text htext hread) (by decide) rfl (by rw [hname]; decide)
  rw [hname] at hbreaks
  refine ⟨_, _, run_of_plan hi hplan, ?_⟩
  obtain ⟨report, hfinish, hending⟩ := ExportJob.breaksWith_of_breaks hbreaks
  have hshown : report.printed disk = report := Report.printed_of_shows fun _ _ => rfl
  rw [hfinish, carryOut, hshown]
  exact hending

end Folder
end Bellows
