import Bellows.CommandLine.ExportJob
import Bellows.Proofs.CommandLine.Endings
import Bellows.Proofs.CommandLine.Paths
import Bellows.Proofs.Schedule.Faults
import Bellows.Proofs.Schedule.Infinite

/-! What breaks off the tasks that read a schedule or list the parts of a score: an encoding that
fails in a way of its own, or a time that is too large; an export may also fail for its role's name,
for a time without end or for a zero in its path. -/
namespace Bellows

/-- The commands of a decoded schedule match its times. -/
theorem Document.lengths_of_decode {v : Value} {s : Schedule} (h : decode v = .ok s) :
    ∀ e ∈ s.instructions.entries, e.2.length = s.time.length := by
  obtain ⟨_, _, haccepted⟩ := exists_accepted h
  exact haccepted.lengths

theorem Schedule.lengths_of_read {text : String} {s : Schedule} (h : read text = .ok s) :
    ∀ e ∈ s.instructions.entries, e.2.length = s.time.length := by
  unfold read at h
  split at h
  · exact Document.lengths_of_decode h
  all_goals cases h

namespace CommandLine

namespace Inspecting

variable {host : Host} {octets : List UInt8} {s : Schedule} {fault : Breakdown}

/-- The schedule that is read from octets in UTF-8; a half of a pair is spelled as the host has
it. -/
inductive Reads (host : Host) (octets : List UInt8) (s : Schedule) : Prop
  | text {text : String} (htext : Encoding.decodeUtf8 octets = some text)
    (h : Schedule.read text = .ok s)
  | half {text : String} {v : Value} (htext : Encoding.decodeUtf8 octets = some text)
    (hhalf : ¬ Json.Paired text) (hspelled : host.halved text = .ok v)
    (h : Document.decode v = .ok s)

/-- What breaks off the reading of a schedule: a time beyond all finite numbers in a document that
passes every check, or a host that has no spelling for half of a pair. -/
inductive Breaks (host : Host) (octets : List UInt8) : Breakdown → Prop
  | time {text : String} (htext : Encoding.decodeUtf8 octets = some text)
    (h : Schedule.Escapes text .hugeTime) : Breaks host octets (.document .hugeTime)
  | halfTime {text : String} {v : Value} (htext : Encoding.decodeUtf8 octets = some text)
    (hhalf : ¬ Json.Paired text) (hspelled : host.halved text = .ok v)
    (h : Document.decode v = .error .hugeTime) : Breaks host octets (.document .hugeTime)
  | half {text kind message : String} (htext : Encoding.decodeUtf8 octets = some text)
    (hhalf : ¬ Json.Paired text) (h : host.halved text = .error (.unforeseen kind message)) :
    Breaks host octets (.foreign kind message)

theorem readSchedule_of_reads (h : Reads host octets s) : readSchedule host octets = .ok s := by
  cases h with
  | text htext h => simp only [readSchedule, htext, readText, h]
  | half htext hhalf hspelled h =>
    simp only [readSchedule, htext, readText, Schedule.read_eq_unpaired_iff.mpr hhalf, hspelled, h]
    rfl

theorem readSchedule_of_breaks (h : Breaks host octets fault) :
    readSchedule host octets = .error (.broken fault) := by
  cases h with
  | time htext hescapes =>
    simp only [readSchedule, htext, readText, hescapes.read_eq]
    rfl
  | halfTime htext hhalf hspelled h =>
    simp only [readSchedule, htext, readText, Schedule.read_eq_unpaired_iff.mpr hhalf, hspelled, h]
    rfl
  | half htext hhalf h =>
    simp only [readSchedule, htext, readText, Schedule.read_eq_unpaired_iff.mpr hhalf, h]
    rfl

/-- A document that is no schedule is refused, unless a time in it is too large. -/
theorem documentEnding_cases (fault : DocumentFault) :
    (∃ reason, documentEnding fault = .refused [reason]) ∨ fault = .hugeTime := by
  cases fault with
  | hugeTime => exact Or.inr rfl
  | _ => exact Or.inl ⟨_, rfl⟩

/-- A document is refused where the host cannot read it, unless it fails in another way. -/
theorem halvedEnding_cases (fault : ReadingFault) :
    (∃ reason, halvedEnding fault = .refused [reason]) ∨
      ∃ kind message, fault = .unforeseen kind message := by
  cases fault with
  | unforeseen kind message => exact Or.inr ⟨kind, message, rfl⟩
  | _ => exact Or.inl ⟨_, rfl⟩

theorem readText_of_error {text : String} {fault : DocumentFault}
    (h : Schedule.read text = .error fault) (hpaired : fault ≠ .unpaired) :
    readText host text = .error (documentEnding fault) := by
  unfold readText
  rw [h]
  cases fault with
  | unpaired => exact (hpaired rfl).elim
  | _ => rfl

/-- A schedule is read, or refused with a reason, or one of the listed faults is in it. -/
theorem readSchedule_cases (host : Host) (octets : List UInt8) :
    (∃ s, Reads host octets s) ∨
    (∃ reason, readSchedule host octets = .error (.refused [reason])) ∨
    ∃ fault, Breaks host octets fault := by
  cases htext : Encoding.decodeUtf8 octets with
  | none => exact Or.inr (Or.inl ⟨_, by simp only [readSchedule, htext]; rfl⟩)
  | some text =>
    have hschedule : readSchedule host octets = readText host text := by
      simp only [readSchedule, htext]
    cases hread : Schedule.read text with
    | ok s => exact Or.inl ⟨s, .text htext hread⟩
    | error fault =>
      by_cases hhalf : fault = .unpaired
      · subst hhalf
        have hpaired := Schedule.read_eq_unpaired_iff.mp hread
        cases hspelled : host.halved text with
        | error fault =>
          obtain ⟨reason, hreason⟩ | ⟨kind, message, rfl⟩ := halvedEnding_cases fault
          · exact Or.inr (Or.inl ⟨reason, by
              simp only [hschedule, readText, hread, hspelled, hreason]⟩)
          · exact Or.inr (Or.inr ⟨_, .half htext hpaired hspelled⟩)
        | ok v =>
          cases hdecode : Document.decode v with
          | ok s => exact Or.inl ⟨s, .half htext hpaired hspelled hdecode⟩
          | error fault =>
            obtain ⟨reason, hreason⟩ | rfl := documentEnding_cases fault
            · exact Or.inr (Or.inl ⟨reason, by
                simp only [hschedule, readText, hread, hspelled, hdecode, Except.mapError,
                  hreason]⟩)
            · exact Or.inr (Or.inr ⟨_, .halfTime htext hpaired hspelled hdecode⟩)
      · obtain ⟨reason, hreason⟩ | rfl := documentEnding_cases fault
        · exact Or.inr (Or.inl ⟨reason, by
            rw [hschedule, readText_of_error hread hhalf, hreason]⟩)
        · obtain ⟨_, hformat⟩ | hescapes | hunpaired := Schedule.escapes_of_read hread
          · cases hformat
          · exact Or.inr (Or.inr ⟨_, .time htext hescapes⟩)
          · exact (hhalf hunpaired).elim

theorem reads_of_readSchedule (h : readSchedule host octets = .ok s) : Reads host octets s := by
  obtain ⟨s', hreads⟩ | ⟨_, hrefused⟩ | ⟨_, hbreaks⟩ := readSchedule_cases host octets
  · cases h.symm.trans (readSchedule_of_reads hreads)
    exact hreads
  · cases h.symm.trans hrefused
  · cases h.symm.trans (readSchedule_of_breaks hbreaks)

theorem Reads.lengths (h : Reads host octets s) :
    ∀ e ∈ s.instructions.entries, e.2.length = s.time.length := by
  cases h with
  | text _ h => exact Schedule.lengths_of_read h
  | half _ _ _ h => exact Document.lengths_of_decode h

/-- A listing breaks off only for the encoding of its score. -/
theorem parts_cases (host : Host) (octets : List UInt8) : (parts host octets).ending.Orderly ∨
    ∃ kind message, Encoding.decode host.codecs octets = .error (.unforeseen kind message) := by
  unfold parts
  cases hscore : Score.ofOctets host.codecs Score.defaultOrnament octets with
  | ok score => exact Or.inl .done
  | error fault => exact Ending.ofScoreFile_cases hscore

theorem parts_of_unforeseen {kind message : String}
    (h : Encoding.decode host.codecs octets = .error (.unforeseen kind message)) :
    (parts host octets).ending = .broken (.foreign kind message) := by
  rw [parts, Score.ofOctets_of_unforeseen h]
  rfl

theorem check_of_breaks (h : Breaks host octets fault) :
    (check host octets).ending = .broken fault := by
  rw [check, readSchedule_of_breaks h]

theorem check_cases (host : Host) (octets : List UInt8) :
    (check host octets).ending.Orderly ∨ ∃ fault, Breaks host octets fault := by
  obtain ⟨s, hreads⟩ | ⟨reason, hread⟩ | hbreaks := readSchedule_cases host octets
  · rw [check, readSchedule_of_reads hreads]
    exact Or.inl .done
  · rw [check, hread]
    exact Or.inl (Ending.orderly_refused reason)
  · exact Or.inr hbreaks

end Inspecting

namespace ExportJob

/-- The name that the rows of a job get where no other one is given. -/
def rowsName (job : ExportJob) : String :=
  s!"{(Path.ofText job.schedule).stem}-{job.role}.rows.json"

/-- Where rows go: to the path that is given, or else beside the schedule, under its stem and the
name of the role, unless that name has a stroke in it. -/
inductive IsTarget (job : ExportJob) : Path → Prop
  | given {output : String} (h : job.output = some output) : IsTarget job (Path.ofText output)
  | beside {stem : String} (h : job.output = none)
    (hstem : Path.IsStem ((Path.ofText job.schedule).names.getLast?.getD "") stem)
    (hname : '/' ∉ (stem ++ "-" ++ job.role ++ ".rows.json").toList) :
    IsTarget job ⟨(Path.ofText job.schedule).root,
      (Path.ofText job.schedule).names.dropLast ++ [stem ++ "-" ++ job.role ++ ".rows.json"]⟩

/-- What breaks an export off: what breaks off the reading of its schedule, a name of a role that no
file can have, a time without end in front of any other that is not a number, or a zero in the path
of the rows. -/
inductive Breaks (host : Host) (job : ExportJob) : Breakdown → Prop
  | schedule {fault : Breakdown} (h : Inspecting.Breaks host job.octets fault) :
    Breaks host job fault
  | name {s : Schedule} (h : Inspecting.Reads host job.octets s)
    (hrole : s.instructions.contains job.role = true) (houtput : job.output = none)
    (hname : '/' ∈ job.rowsName.toList) : Breaks host job (.badName job.rowsName)
  | rows {s : Schedule} {negative : Bool} (h : Inspecting.Reads host job.octets s)
    (hrole : s.instructions.contains job.role = true)
    (hname : job.output = none → '/' ∉ job.rowsName.toList)
    (htime : s.time.find? (fun t => !t.isFinite) = some (.infinite negative)) :
    Breaks host job (.rows (.notFinite .infinite))
  | zero {s : Schedule} {rows : List Row} {path : Path}
    (h : Inspecting.Reads host job.octets s) (hrole : s.instructions.contains job.role = true)
    (htarget : job.IsTarget path) (hrows : s.rows job.role = .ok rows)
    (hvalid : Row.fault? (rows.map Row.entries) = none)
    (hzero : '\x00' ∈ path.text.toList) : Breaks host job .zeroInPath

variable {host : Host} {job : ExportJob} {s : Schedule} {rows : List Row} {ending : Ending}
  {output : String} {fault : Breakdown}

/-- The rows get a name of their own unless there is a stroke in it. -/
theorem isName_rowsName (job : ExportJob) :
    Path.isName job.rowsName = true ↔ '/' ∉ job.rowsName.toList := by
  -- the extension alone is longer than the names that lead nowhere
  have hlength : 10 ≤ job.rowsName.length := by
    have hextension : ".rows.json".length = 10 := by decide
    change 10 ≤ (_ ++ job.role ++ ".rows.json").length
    rw [String.length_append, hextension]
    exact Nat.le_add_left _ _
  have hne : ∀ short : String, short.length < 10 → job.rowsName ≠ short := by
    rintro short hshort rfl
    omega
  simp [Path.isName, hne "" (by decide), hne "." (by decide)]

theorem target_of_given (h : job.output = some output) : job.target = .ok output := by
  simp only [target, h]

theorem target_of_name (houtput : job.output = none) (h : '/' ∉ job.rowsName.toList) :
    job.target = .ok ((Path.ofText job.schedule).withName job.rowsName).text := by
  have hname := (isName_rowsName job).mpr h
  unfold rowsName at hname
  simp only [target, houtput, hname]
  rfl

theorem exists_target (h : job.output = none → '/' ∉ job.rowsName.toList) :
    ∃ output, job.target = .ok output := by
  cases houtput : job.output with
  | some output => exact ⟨output, target_of_given houtput⟩
  | none => exact ⟨_, target_of_name houtput (h houtput)⟩

theorem target_of_stroke (houtput : job.output = none) (h : '/' ∈ job.rowsName.toList) :
    job.target = .error (.badName job.rowsName) := by
  have hname : ¬ Path.isName job.rowsName = true := fun hname =>
    (isName_rowsName job).mp hname h
  unfold rowsName at hname
  simp only [target, houtput, hname]
  rfl

/-- Rows that are not sent elsewhere go to a path that is read back as it is. -/
theorem ofText_beside (job : ExportJob) (h : '/' ∉ job.rowsName.toList) :
    Path.ofText ((Path.ofText job.schedule).withName job.rowsName).text =
      (Path.ofText job.schedule).withName job.rowsName :=
  Path.ofText_text_withName (Path.normal_ofText job.schedule) (Path.names_append (by decide) h)

theorem isTarget_iff {path : Path} :
    job.IsTarget path ↔ ∃ output, job.target = .ok output ∧ path = Path.ofText output := by
  constructor
  · rintro (h | ⟨houtput, hstem, hname⟩)
    · exact ⟨_, target_of_given h, rfl⟩
    · rw [Path.isStem_iff.mp hstem] at hname ⊢
      exact ⟨_, target_of_name houtput hname, (ofText_beside job hname).symm⟩
  · rintro ⟨output, htarget, rfl⟩
    cases houtput : job.output with
    | some output' =>
      cases htarget.symm.trans (target_of_given houtput)
      exact .given houtput
    | none =>
      by_cases hname : '/' ∈ job.rowsName.toList
      · cases htarget.symm.trans (target_of_stroke houtput hname)
      · cases htarget.symm.trans (target_of_name houtput hname)
        rw [ofText_beside job hname]
        exact .beside houtput (Path.isStem_iff.mpr rfl) hname

theorem plan_of_compile_error (h : job.compile host = .error ending) :
    job.plan host = .finish ⟨[], [], [], ending⟩ := by
  simp only [plan, h]

theorem plan_of_compile (h : job.compile host = .ok (output, s, rows)) : job.plan host =
    .store (Path.ofText output) (render rows) ⟨[], [], [], .done⟩
      (written output s.time.length) := by
  simp only [plan, h]

theorem orderly_plan_of_compile (h : job.compile host = .ok (output, s, rows))
    (hzero : '\x00' ∉ (Path.ofText output).text.toList) : (job.plan host).Orderly := by
  rw [plan_of_compile h, Plan.store_of_not_mem hzero]
  intro fault
  cases fault with
  | none => exact .done
  | some fault => exact Ending.orderly_refused _

section

variable (h : Inspecting.Reads host job.octets s)
include h

theorem compile_of_read : job.compile host = (do
    job.knownRole s
    let output ← job.target.mapError Ending.broken
    let rows ← job.rowsOf s
    .ok (output, s, rows)) := by
  rw [compile, Inspecting.readSchedule_of_reads h]
  rfl

/-- A role that the schedule lacks is refused. -/
theorem orderly_plan_of_unknown (hrole : s.instructions.contains job.role = false) :
    (job.plan host).Orderly := by
  have hcompile := compile_of_read h
  unfold knownRole at hcompile
  rw [hrole, if_neg Bool.false_ne_true] at hcompile
  rw [plan_of_compile_error hcompile]
  exact Ending.orderly_refused _

variable (hrole : s.instructions.contains job.role = true)
include hrole

theorem compile_of_known : job.compile host = (do
    let output ← job.target.mapError Ending.broken
    let rows ← job.rowsOf s
    .ok (output, s, rows)) := by
  rw [compile_of_read h, knownRole, if_pos hrole]
  rfl

theorem compile_of_target (htarget : job.target = .ok output) :
    job.compile host = (job.rowsOf s).map fun rows => (output, s, rows) := by
  rw [compile_of_known h hrole, htarget]
  cases job.rowsOf s <;> rfl

theorem compile_of_target_error (htarget : job.target = .error fault) :
    job.compile host = .error (.broken fault) := by
  rw [compile_of_known h hrole, htarget]
  rfl

end

theorem rowsOf_eq_ok_iff : job.rowsOf s = .ok rows ↔
    s.rows job.role = .ok rows ∧ Row.fault? (rows.map Row.entries) = none := by
  constructor
  · intro h
    unfold rowsOf at h
    split at h
    · cases h
    · cases h
    · next hrows =>
      split at h
      · next hvalid =>
        cases h
        exact ⟨hrows, hvalid⟩
      · cases h
  · rintro ⟨hrows, hvalid⟩
    simp only [rowsOf, hrows, hvalid]

/-- Rows of a role fail in order, unless a time without end comes first. -/
theorem rowsOf_cases {commands : List Command}
    (hget : s.instructions.get? job.role = some commands)
    (hlength : commands.length = s.time.length) :
    (∃ rows, job.rowsOf s = .ok rows) ∨
    (∃ reason, job.rowsOf s = .error (.refused [reason])) ∨
    ∃ negative, s.time.find? (fun t => !t.isFinite) = some (.infinite negative) := by
  cases hrows : s.rows job.role with
  | ok rows =>
    cases hfault : Row.fault? (rows.map Row.entries) with
    | none => exact Or.inl ⟨rows, rowsOf_eq_ok_iff.mpr ⟨hrows, hfault⟩⟩
    | some fault =>
      exact Or.inr (Or.inl ⟨_, by simp only [rowsOf, hrows, hfault, refusal]; rfl⟩)
  | error fault =>
    match fault with
    | .notFinite .nan => exact Or.inr (Or.inl ⟨_, by simp only [rowsOf, hrows, refusal]; rfl⟩)
    | .notFinite .infinite =>
      exact Or.inr (Or.inr ((Schedule.rows_eq_infinite_iff hget hlength).mp hrows))
    | .unknownRole role =>
      rw [Schedule.rows, hget] at hrows
      dsimp only at hrows
      split at hrows <;> cases hrows

theorem exists_commands (h : Inspecting.Reads host job.octets s)
    (hrole : s.instructions.contains job.role = true) : ∃ commands,
      s.instructions.get? job.role = some commands ∧ commands.length = s.time.length := by
  obtain ⟨commands, hget⟩ := Option.isSome_iff_exists.mp hrole
  exact ⟨commands, hget, h.lengths _ ((s.instructions.get?_eq_some_iff _ _).mp hget)⟩

/-- An export of a role with a name for its rows ends in order, unless a time without end comes
first or a zero is in the path. -/
theorem plan_cases_of_target (h : Inspecting.Reads host job.octets s)
    (hrole : s.instructions.contains job.role = true)
    (hname : job.output = none → '/' ∉ job.rowsName.toList) :
    (job.plan host).Orderly ∨ ∃ fault, Breaks host job fault := by
  obtain ⟨commands, hget, hlength⟩ := exists_commands h hrole
  obtain ⟨output, htarget⟩ := exists_target hname
  have hcompile := compile_of_target h hrole htarget
  obtain ⟨rows, hrows⟩ | ⟨reason, hrows⟩ | ⟨negative, htime⟩ := rowsOf_cases hget hlength
  · rw [hrows] at hcompile
    by_cases hzero : '\x00' ∈ (Path.ofText output).text.toList
    · obtain ⟨hrows, hvalid⟩ := rowsOf_eq_ok_iff.mp hrows
      have hpath := isTarget_iff.mpr ⟨output, htarget, rfl⟩
      exact Or.inr ⟨_, .zero h hrole hpath hrows hvalid hzero⟩
    · exact Or.inl (orderly_plan_of_compile hcompile hzero)
  · rw [hrows] at hcompile
    rw [plan_of_compile_error hcompile]
    exact Or.inl (Ending.orderly_refused reason)
  · exact Or.inr ⟨_, .rows h hrole hname htime⟩

/-- An export ends in order unless one of the listed faults is in its file, its role or its path. -/
theorem plan_cases (host : Host) (job : ExportJob) :
    (job.plan host).Orderly ∨ ∃ fault, Breaks host job fault := by
  obtain ⟨s, h⟩ | ⟨reason, h⟩ | ⟨fault, hbreaks⟩ :=
    Inspecting.readSchedule_cases host job.octets
  · cases hrole : s.instructions.contains job.role with
    | false => exact Or.inl (orderly_plan_of_unknown h hrole)
    | true =>
      by_cases hname : job.output = none → '/' ∉ job.rowsName.toList
      · exact plan_cases_of_target h hrole hname
      · obtain ⟨houtput, hstroke⟩ := Classical.not_imp.mp hname
        exact Or.inr ⟨_, .name h hrole houtput (not_not.mp hstroke)⟩
  · have hcompile : job.compile host = .error (.refused [reason]) := by
      rw [compile, h]
      rfl
    rw [plan_of_compile_error hcompile]
    exact Or.inl (Ending.orderly_refused reason)
  · exact Or.inr ⟨fault, .schedule hbreaks⟩

/-- Each of the listed faults breaks the export off. -/
theorem breaksWith_of_breaks (h : Breaks host job fault) : (job.plan host).BreaksWith fault := by
  cases h with
  | schedule h =>
    have hcompile : job.compile host = .error (.broken fault) := by
      rw [compile, Inspecting.readSchedule_of_breaks h]
      rfl
    exact ⟨_, plan_of_compile_error hcompile, rfl⟩
  | name h hrole houtput hname =>
    have hcompile := compile_of_target_error h hrole (target_of_stroke houtput hname)
    exact ⟨_, plan_of_compile_error hcompile, rfl⟩
  | rows h hrole hname htime =>
    obtain ⟨commands, hget, hlength⟩ := exists_commands h hrole
    obtain ⟨output, htarget⟩ := exists_target hname
    have hrows := (Schedule.rows_eq_infinite_iff hget hlength).mpr ⟨_, htime⟩
    have hcompile := compile_of_target h hrole htarget
    simp only [rowsOf, hrows] at hcompile
    exact ⟨_, plan_of_compile_error hcompile, rfl⟩
  | zero h hrole hpath hrows hvalid hzero =>
    obtain ⟨output, htarget, rfl⟩ := isTarget_iff.mp hpath
    have hcompile := compile_of_target h hrole htarget
    rw [rowsOf_eq_ok_iff.mpr ⟨hrows, hvalid⟩] at hcompile
    rw [plan_of_compile hcompile, Plan.store_of_mem hzero]
    exact ⟨_, rfl, rfl⟩

end ExportJob
end CommandLine
end Bellows
