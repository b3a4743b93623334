import Bellows.CommandLine.ConvertJob
import Bellows.Proofs.CommandLine.Endings
import Bellows.Proofs.CommandLine.Paths
import Bellows.Proofs.Conversion.Endless
import Bellows.Proofs.Role.Acceptance
import Bellows.Proofs.Schedule.Faults
import Bellows.Proofs.Score.Parts

/-! What breaks a conversion off: what its files can hold that neither the checks nor the reports
foresee. -/
namespace Bellows

theorem Score.regular_of_ofOctets {codecs : Encoding.Codecs} {ornament : Dynamic}
    {octets : List UInt8} {score : Score} (h : ofOctets codecs ornament octets = .ok score) :
    score.Regular := by
  obtain ⟨text, _, h⟩ := exists_of_bind_eq_ok h
  change (ofText ornament text).mapError ScoreFileFault.score = _ at h
  cases htext : ofText ornament text with
  | error fault =>
    rw [htext] at h
    cases h
  | ok read =>
    rw [htext] at h
    cases h
    obtain ⟨_, _, hread⟩ := exists_of_bind_eq_ok htext
    exact regular_of_ofElement hread

namespace Settings

variable {s : Settings} {pace : Pace} {tolerance : Binary64} {score : Score}
  {reader : DocumentReader} {path : String} {octets : List UInt8} {bpm step : Option Value}
  {unplayable : List MappingFault} {conflicts : List Conflict}

theorem ofFile_eq_ok (h : ofFile reader path octets bpm step = .ok s) : ∃ entries,
    documentOf reader path octets = .ok entries ∧ ofDocument entries bpm step = .ok s := by
  unfold ofFile at h
  split at h
  · cases h
  · next entries hentries =>
    split at h
    · next hdocument =>
      cases h
      exact ⟨entries, hentries, hdocument⟩
    · cases h

/-- A failure of the reader that nothing is prepared for is handed on as it is. -/
theorem ofFile_of_unforeseen {kind message : String}
    (h : reader octets = .error (.unforeseen kind message)) :
    ofFile reader path octets bpm step = .error (.unforeseen kind message) := by
  simp only [ofFile, documentOf, h]

theorem reader_of_ofFile {kind message : String}
    (h : ofFile reader path octets bpm step = .error (.unforeseen kind message)) :
    reader octets = .error (.unforeseen kind message) := by
  unfold ofFile at h
  split at h
  · next hdocument =>
    cases h
    unfold documentOf at hdocument
    split at hdocument
    · cases hdocument
    · cases hdocument
    · next hread =>
      cases hdocument
      exact hread
    · split at hdocument
      · cases hdocument
      · split at hdocument <;> cases hdocument
  · split at h <;> cases h

/-- A conversion that fails with its roles has something to report. -/
theorem complaint_of_convert
    (h : s.convert pace tolerance score = .error (.roles unplayable conflicts)) :
    unplayable ≠ [] ∨ conflicts ≠ [] := by
  by_cases hnil : s.roles = []
  · cases (convert_of_nil hnil).symm.trans h
  obtain ⟨_, _, hlayout⟩ | ⟨survey, hs, hof⟩ := @convert_of_ne_nil s pace tolerance score hnil
  · cases hlayout.symm.trans h
  rw [hof] at h
  by_cases hfree : survey.unplayable = [] ∧ Conversion.conflicts (Conversion.mergeAll s.curve
      (Conversion.axis tolerance survey.playable) survey.playable) = []
  · obtain ⟨_, hok, _⟩ := Conversion.ofSurvey_of_nil tolerance hnil hs hfree.1 hfree.2
    cases hok.symm.trans h
  · cases (Conversion.ofSurvey_of_complaint hfree).symm.trans h
    exact not_and_or.mp hfree

/-- Settings of which tempo and step can be printed. -/
structure Printable (s : Settings) : Prop where
  bpm : (Value.int s.bpm).isTooLong = false
  step : ∀ n : Int, s.step = .int n → n < Binary64.overflow

end Settings

namespace CommandLine

namespace ConvertJob

/-- The settings of a conversion: those of its parameter file, with what is given beside them. -/
def settings (job : ConvertJob) (host : Host) : Except ParameterFileFault Settings :=
  Settings.ofFile host.reader job.config job.configOctets (job.bpm.map Value.int)
    (job.step.map Value.float)

/-- Where a schedule goes: to the path that is given, or else beside the score, under its stem. -/
inductive IsTarget (job : ConvertJob) : Path → Prop
  | given {output : String} (h : job.output = some output) : IsTarget job (Path.ofText output)
  | beside {stem : String} (h : job.output = none)
    (hstem : Path.IsStem ((Path.ofText job.score).names.getLast?.getD "") stem) :
    IsTarget job ⟨(Path.ofText job.score).root,
      (Path.ofText job.score).names.dropLast ++ [stem ++ ".schedule.json"]⟩

/-- What breaks a conversion off: a reader of parameters or an encoding that fails in a way of its
own, a tempo or a step that cannot be printed, a step that is no number, a part without a finite
end, or a zero in the path of a schedule. -/
inductive Breaks (host : Host) (job : ConvertJob) : Breakdown → Prop
  | reader {kind message : String}
    (h : host.reader job.configOctets = .error (.unforeseen kind message)) :
    Breaks host job (.foreign kind message)
  | tempo {s : Settings} (h : job.settings host = .ok s)
    (hlong : (Value.int s.bpm).isTooLong = true) : Breaks host job .tempoTooLong
  | step {s : Settings} {n : Int} (h : job.settings host = .ok s)
    (hshort : (Value.int s.bpm).isTooLong = false) (hstep : s.step = .int n)
    (hn : Binary64.overflow ≤ n) : Breaks host job .stepTooLarge
  | pace {s : Settings} (h : job.settings host = .ok s) (hprint : s.Printable)
    (hstep : s.step.Unmeasured) : Breaks host job (.pace (.stepNoFraction s.step))
  | codec {s : Settings} {kind message : String} (h : job.settings host = .ok s)
    (hprint : s.Printable) (hstep : s.step.Measured)
    (hdecode : Encoding.decode host.codecs job.scoreOctets = .error (.unforeseen kind message)) :
    Breaks host job (.foreign kind message)
  | layout {s : Settings} {score : Score} {r : Role} {m : Member} (h : job.settings host = .ok s)
    (hprint : s.Printable) (hstep : s.step.Measured)
    (hscore : Score.ofOctets host.codecs Score.defaultOrnament job.scoreOctets = .ok score)
    (hr : r ∈ s.roles) (hplay : r.Playable score) (hm : m ∈ r.members)
    (hlong : score.Endless s.bpm m.part) : Breaks host job (.layout .tooLong)
  | zero {s : Settings} {pace : Pace} {score : Score} {schedule : Schedule}
    (h : job.settings host = .ok s) (hprint : s.Printable) (hpace : s.pace = .ok pace)
    (hscore : Score.ofOctets host.codecs Score.defaultOrnament job.scoreOctets = .ok score)
    (hconvert : s.convert pace Axis.defaultTolerance score = .ok schedule)
    {path : Path} (htarget : job.IsTarget path) (hzero : '\x00' ∈ path.text.toList) :
    Breaks host job .zeroInPath

variable {host : Host} {job : ConvertJob} {s : Settings} {pace : Pace} {score : Score}
  {schedule : Schedule} {ending : Ending} {line : String} {fault : Breakdown}

/-- A schedule that is not sent elsewhere goes to a path that is read back as it is. -/
theorem ofText_beside (job : ConvertJob) :
    Path.ofText ((Path.ofText job.score).withExtension ".schedule.json").text =
      (Path.ofText job.score).withExtension ".schedule.json" := by
  have hnormal := Path.normal_ofText job.score
  refine Path.ofText_text_withName hnormal (Path.names_append (by decide) ?_)
  rw [String.toList_append, List.mem_append, not_or]
  exact ⟨Path.not_mem_stem hnormal, by decide⟩

theorem isTarget_iff {path : Path} : job.IsTarget path ↔ path = Path.ofText job.target := by
  unfold target
  constructor
  · rintro (h | ⟨h, hstem⟩)
    · rw [h, Option.getD_some]
    · rw [h, Option.getD_none, ofText_beside, Path.isStem_iff.mp hstem]
      rfl
  · rintro rfl
    cases h : job.output with
    | some output => exact .given h
    | none =>
      rw [Option.getD_none, ofText_beside]
      exact .beside h (Path.isStem_iff.mpr rfl)

/-- A run without settings is refused, unless the reader fails in another way. -/
theorem parameterEnding_cases {fault : ParameterFileFault}
    (h : job.settings host = .error fault) : (parameterEnding fault).Orderly ∨
      ∃ kind message, host.reader job.configOctets = .error (.unforeseen kind message) := by
  cases fault with
  | unforeseen kind message => exact Or.inr ⟨kind, message, Settings.reader_of_ofFile h⟩
  | _ => exact Or.inl (Ending.orderly_refused _)

theorem plan_of_settings_error {fault : ParameterFileFault}
    (h : job.settings host = .error fault) :
    job.plan host = .finish ⟨job.heading, [], [], parameterEnding fault⟩ := by
  unfold settings at h
  simp only [plan, h]

theorem plan_of_tempoLine_error (h : job.settings host = .ok s)
    (hline : tempoLine s = .error fault) :
    job.plan host = .finish ⟨job.heading, [], [], .broken fault⟩ := by
  unfold settings at h
  simp only [plan, h, hline]

/-- A compilation that fails ends the plan. -/
theorem plan_of_compile_error (h : job.settings host = .ok s) (hline : tempoLine s = .ok line)
    (hcompile : (job.compile host s).2 = .error ending) :
    ∃ report, job.plan host = .finish report ∧ report.ending = ending := by
  unfold settings at h
  rcases hc : job.compile host s with ⟨notices, result⟩
  rw [hc] at hcompile
  obtain rfl : result = _ := hcompile
  simp only [plan, h, hline, hc]
  exact ⟨_, rfl, rfl⟩

/-- A compilation that succeeds is stored at the target. -/
theorem plan_of_compile (h : job.settings host = .ok s) (hline : tempoLine s = .ok line)
    (hcompile : (job.compile host s).2 = .ok schedule) : ∃ before, job.plan host =
      .store (Path.ofText job.target) (schedule.render (some 2)) before (job.written before) := by
  unfold settings at h
  rcases hc : job.compile host s with ⟨notices, result⟩
  rw [hc] at hcompile
  obtain rfl : result = _ := hcompile
  simp only [plan, h, hline, hc]
  exact ⟨_, rfl⟩

theorem orderly_plan_of_compile (h : job.settings host = .ok s) (hline : tempoLine s = .ok line)
    (hcompile : (job.compile host s).2 = .ok schedule)
    (hzero : '\x00' ∉ (Path.ofText job.target).text.toList) : (job.plan host).Orderly := by
  obtain ⟨before, hplan⟩ := plan_of_compile h hline hcompile
  rw [hplan, Plan.store_of_not_mem hzero]
  intro fault
  cases fault with
  | none => exact .done
  | some fault => exact Ending.orderly_refused _

/-- The settings of a job accept their step. -/
theorem exists_step (h : job.settings host = .ok s) :
    ∃ q, s.step.quantity? = some q ∧ q.le (.whole 0) = false := by
  obtain ⟨_, _, hdocument⟩ := Settings.ofFile_eq_ok h
  exact (Settings.readFrom_of_ofDocument hdocument).step.2

section

variable {q : Quantity} (hq : s.step.quantity? = some q) (hpos : q.le (.whole 0) = false)
include hq hpos

/-- An accepted step rounds to a finite number unless it is a whole number that is too large. -/
theorem toBinary64?_step_eq_none_iff :
    q.toBinary64? = none ↔ ∃ n : Int, s.step = .int n ∧ Binary64.overflow ≤ n := by
  rw [Quantity.toBinary64?_eq_none_iff]
  have hsmall : 1 < Binary64.overflow := by decide +kernel
  constructor
  · rintro ⟨n, rfl, hn⟩
    have hnpos : 0 < n := by simpa using hpos
    cases hstep : s.step with
    | int m =>
      rw [hstep] at hq
      cases hq
      exact ⟨n, rfl, by omega⟩
    | bool b =>
      rw [hstep] at hq
      cases hq
      cases b with
      | true => exact absurd hn (Nat.not_le.mpr hsmall)
      | false => cases hnpos
    | _ =>
      rw [hstep] at hq
      cases hq
  · rintro ⟨n, hstep, hn⟩
    rw [hstep] at hq
    cases hq
    exact ⟨n, rfl, by omega⟩

theorem tempoLine_of_printable (h : s.Printable) : ∃ line, tempoLine s = .ok line := by
  cases hround : q.toBinary64? with
  | some x => exact ⟨_, by simp only [tempoLine, h.bpm, hq, Option.bind_some, hround]; rfl⟩
  | none =>
    obtain ⟨n, hstep, hn⟩ := (toBinary64?_step_eq_none_iff hq hpos).mp hround
    exact absurd (h.step n hstep) (not_lt.mpr hn)

end

theorem tempoLine_of_tooLong (h : (Value.int s.bpm).isTooLong = true) :
    tempoLine s = .error .tempoTooLong := if_pos h

theorem tempoLine_of_large {n : Int} (hshort : (Value.int s.bpm).isTooLong = false)
    (hstep : s.step = .int n) (hn : Binary64.overflow ≤ n) :
    tempoLine s = .error .stepTooLarge := by
  have hround : s.step.quantity?.bind Quantity.toBinary64? = none := by
    rw [hstep, Value.quantity?, Option.bind_some, Quantity.toBinary64?_eq_none_iff]
    exact ⟨n, rfl, by omega⟩
  unfold tempoLine
  rw [hshort, if_neg Bool.false_ne_true, hround]

theorem overflow_le_longest : Binary64.overflow ≤ Value.longest := by decide +kernel

/-- A step that can be printed and still names no fraction is none by its kind. -/
theorem fraction_of_unmeasured (h : s.step.Unmeasured) (hprint : s.Printable) :
    s.step.fraction = .error (.stepNoFraction s.step) := by
  have hsmall := hprint.step
  generalize s.step = v at h hsmall ⊢
  cases h with
  | logical => rfl
  | nan => rfl
  | infinite => rfl
  | @long n hpos hlong =>
    rw [Value.isTooLong] at hlong
    have hle : Binary64.overflow ≤ n.natAbs :=
      overflow_le_longest.trans (of_decide_eq_true hlong)
    have hlt := hsmall n rfl
    omega

theorem compile_of_pace_error {fault : PaceFault} (h : s.pace = .error fault) :
    (job.compile host s).2 = .error (.broken (.pace fault)) := by
  rw [compile, h]

theorem compile_of_score_error {fault : ScoreFileFault} (hpace : s.pace = .ok pace)
    (h : Score.ofOctets host.codecs Score.defaultOrnament job.scoreOctets = .error fault) :
    (job.compile host s).2 = .error (.ofScoreFile fault) := by
  simp only [compile, hpace, h]

section

variable (hpace : s.pace = .ok pace)
  (hscore : Score.ofOctets host.codecs Score.defaultOrnament job.scoreOctets = .ok score)
include hpace hscore

theorem compile_of_convert (h : s.convert pace Axis.defaultTolerance score = .ok schedule) :
    (job.compile host s).2 = .ok schedule := by
  simp only [compile, hpace, hscore, h]

theorem compile_of_convert_error {fault : ConversionFault}
    (h : s.convert pace Axis.defaultTolerance score = .error fault) :
    (job.compile host s).2 = .error (conversionEnding fault) := by
  simp only [compile, hpace, hscore, h]

end

/-- A conversion that fails is refused with its reasons, or it could not be laid out. -/
theorem conversionEnding_cases {fault : ConversionFault} {tolerance : Binary64}
    (h : s.convert pace tolerance score = .error fault) :
    (conversionEnding fault).Orderly ∨ ∃ f, fault = .layout f := by
  cases fault with
  | nothingMapped => exact Or.inl (Ending.orderly_refused _)
  | layout f => exact Or.inr ⟨f, rfl⟩
  | length f => exact (Settings.convert_ne_length f h).elim
  | roles unplayable conflicts =>
    refine Or.inl (.refused fun hnil => ?_)
    obtain ⟨hun, hcon⟩ := List.append_eq_nil_iff.mp (List.map_eq_nil_iff.mp hnil)
    rcases Settings.complaint_of_convert h with hne | hne
    · exact hne (List.map_eq_nil_iff.mp hun)
    · exact hne (List.map_eq_nil_iff.mp hcon)

theorem orderly_plan_of_ending (h : job.settings host = .ok s) (hline : tempoLine s = .ok line)
    (hcompile : (job.compile host s).2 = .error ending) (hending : ending.Orderly) :
    (job.plan host).Orderly := by
  obtain ⟨report, hplan, rfl⟩ := plan_of_compile_error h hline hcompile
  rw [hplan]
  exact hending

/-- Settings with a step that is a number have a pace, and their line can be printed. -/
theorem exists_pace (h : job.settings host = .ok s) (hprint : s.Printable)
    (hstep : s.step.Measured) :
    (∃ pace, s.pace = .ok pace) ∧ ∃ line, tempoLine s = .ok line := by
  obtain ⟨q, hq, hpos⟩ := exists_step h
  refine ⟨?_, tempoLine_of_printable hq hpos hprint⟩
  obtain ⟨_, interval, _, hfraction⟩ | ⟨hun, _⟩ := Value.fraction_cases hq hpos
  · exact ⟨⟨.whole s.bpm, interval⟩, by rw [Settings.pace_eq_map_fraction hq hpos, hfraction]; rfl⟩
  · exact (hun.not_measured hstep).elim

/-- A conversion with printable settings and a step that is a number ends in order, unless the
encoding of its score fails in a way of its own, a part has no finite end, or a zero is in the path
of the schedule. -/
theorem plan_cases_of_measured (h : job.settings host = .ok s) (hprint : s.Printable)
    (hstep : s.step.Measured) :
    (job.plan host).Orderly ∨ ∃ fault, Breaks host job fault := by
  obtain ⟨⟨pace, hpace⟩, line, hline⟩ := exists_pace h hprint hstep
  cases hscore : Score.ofOctets host.codecs Score.defaultOrnament job.scoreOctets with
  | error fault =>
    obtain horderly | ⟨kind, message, hdecode⟩ := Ending.ofScoreFile_cases hscore
    · have hcompile := compile_of_score_error hpace hscore
      exact Or.inl (orderly_plan_of_ending h hline hcompile horderly)
    · exact Or.inr ⟨_, .codec h hprint hstep hdecode⟩
  | ok score =>
    cases hconvert : s.convert pace Axis.defaultTolerance score with
    | ok schedule =>
      by_cases hzero : '\x00' ∈ (Path.ofText job.target).text.toList
      · exact Or.inr ⟨_, .zero h hprint hpace hscore hconvert (isTarget_iff.mpr rfl) hzero⟩
      · have hcompile := compile_of_convert hpace hscore hconvert
        exact Or.inl (orderly_plan_of_compile h hline hcompile hzero)
    | error fault =>
      obtain horderly | ⟨f, rfl⟩ := conversionEnding_cases hconvert
      · have hcompile := compile_of_convert_error hpace hscore hconvert
        exact Or.inl (orderly_plan_of_ending h hline hcompile horderly)
      · obtain ⟨_, r, hr, hplay, m, hm, hlong⟩ := (Settings.convert_eq_layout_iff
          (Score.regular_of_ofOctets hscore) hpace).mp hconvert
        exact Or.inr ⟨_, .layout h hprint hstep hscore hr hplay hm hlong⟩

/-- A conversion ends in order unless one of the listed faults is in its files. -/
theorem plan_cases (host : Host) (job : ConvertJob) :
    (job.plan host).Orderly ∨ ∃ fault, Breaks host job fault := by
  cases h : job.settings host with
  | error fault =>
    rw [plan_of_settings_error h]
    obtain horderly | ⟨kind, message, hread⟩ := parameterEnding_cases h
    · exact Or.inl horderly
    · exact Or.inr ⟨_, .reader hread⟩
  | ok s =>
    cases htempo : (Value.int s.bpm).isTooLong with
    | true => exact Or.inr ⟨_, .tempo h htempo⟩
    | false =>
      by_cases hlarge : ∃ n : Int, s.step = .int n ∧ Binary64.overflow ≤ n
      · obtain ⟨n, hstep, hn⟩ := hlarge
        exact Or.inr ⟨_, .step h htempo hstep hn⟩
      · have hprint : s.Printable :=
          ⟨htempo, fun n hstep => not_le.mp fun hn => hlarge ⟨n, hstep, hn⟩⟩
        obtain ⟨q, hq, hpos⟩ := exists_step h
        obtain ⟨hstep, -⟩ | ⟨hstep, -⟩ := Value.fraction_cases hq hpos
        · exact plan_cases_of_measured h hprint hstep
        · exact Or.inr ⟨_, .pace h hprint hstep⟩

/-- Each of the listed faults breaks the conversion off. -/
theorem breaksWith_of_breaks (h : Breaks host job fault) : (job.plan host).BreaksWith fault := by
  cases h with
  | reader h => exact ⟨_, plan_of_settings_error (Settings.ofFile_of_unforeseen h), rfl⟩
  | tempo h hlong => exact ⟨_, plan_of_tempoLine_error h (tempoLine_of_tooLong hlong), rfl⟩
  | step h hshort hstep hn =>
    exact ⟨_, plan_of_tempoLine_error h (tempoLine_of_large hshort hstep hn), rfl⟩
  | @pace s h hprint hstep =>
    obtain ⟨q, hq, hpos⟩ := exists_step h
    obtain ⟨line, hline⟩ := tempoLine_of_printable hq hpos hprint
    have hpace : s.pace = .error (.stepNoFraction s.step) := by
      rw [Settings.pace_eq_map_fraction hq hpos, fraction_of_unmeasured hstep hprint]
      rfl
    exact plan_of_compile_error h hline (compile_of_pace_error hpace)
  | codec h hprint hstep hdecode =>
    obtain ⟨⟨pace, hpace⟩, line, hline⟩ := exists_pace h hprint hstep
    have hcompile := compile_of_score_error hpace (Score.ofOctets_of_unforeseen hdecode)
    exact plan_of_compile_error h hline hcompile
  | @layout s score r m h hprint hstep hscore hr hplay hm hlong =>
    obtain ⟨⟨pace, hpace⟩, line, hline⟩ := exists_pace h hprint hstep
    have hconvert : s.convert pace Axis.defaultTolerance score = _ :=
      (Settings.convert_eq_layout_iff (Score.regular_of_ofOctets hscore) hpace).mpr
        ⟨rfl, r, hr, hplay, m, hm, hlong⟩
    exact plan_of_compile_error h hline (compile_of_convert_error hpace hscore hconvert)
  | zero h hprint hpace hscore hconvert htarget hzero =>
    obtain rfl := isTarget_iff.mp htarget
    obtain ⟨q, hq, hpos⟩ := exists_step h
    obtain ⟨line, hline⟩ := tempoLine_of_printable hq hpos hprint
    obtain ⟨before, hplan⟩ :=
      plan_of_compile h hline (compile_of_convert hpace hscore hconvert)
    rw [hplan, Plan.store_of_mem hzero]
    exact ⟨_, rfl, rfl⟩

end ConvertJob
end CommandLine
end Bellows
