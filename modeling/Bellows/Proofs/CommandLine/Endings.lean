import Bellows.CommandLine.Report

/-! How runs end: in order, with the task done or refused for a reason, or broken off. A run that is
refused says so in a line of its own, which no control sequence of the reason can hide. -/
namespace Bellows

namespace CommandLine

/-- An ending that tells what became of a task: it was done, or refused with a reason. -/
inductive Ending.Orderly : Ending → Prop
  | done : Orderly .done
  | refused {reasons : List String} (h : reasons ≠ []) : Orderly (.refused reasons)

theorem Ending.orderly_refused (reason : String) : Orderly (.refused [reason]) :=
  .refused (List.cons_ne_nil _ _)

namespace Plan

variable {path : Path} {text : String} {before : Report} {report : Option WriteFault → Report}

/-- A plan that ends in order, however the writing goes. -/
def Orderly : Plan → Prop
  | .finish report => report.ending.Orderly
  | .write _ _ _ report => ∀ fault, (report fault).ending.Orderly

/-- A plan that is broken off. -/
def BreaksWith (p : Plan) (fault : Breakdown) : Prop :=
  ∃ report, p = .finish report ∧ report.ending = .broken fault

theorem store_of_not_mem (h : '\x00' ∉ path.text.toList) :
    store path text before report = .write path text before report :=
  if_neg fun hmem => h (List.contains_iff_mem.mp hmem)

theorem store_of_mem (h : '\x00' ∈ path.text.toList) :
    store path text before report = .finish { before with ending := .broken .zeroInPath } :=
  if_pos (List.contains_iff_mem.mpr h)

end Plan

/-- A line that a host can print, as the output shows it. -/
def Host.Shows (host : Host) (line : String) : Prop :=
  host.unprintable (withoutControls line) = none

/-- How printing some lines fails on a host. -/
inductive Host.FailsToPrint (host : Host) (lines : List String) : Breakdown → Prop
  | line {line kind message : String} (hmem : line ∈ lines)
    (h : host.unprintable (withoutControls line) = some (kind, message)) :
    FailsToPrint host lines (.foreign kind message)

theorem Host.FailsToPrint.not_shows {host : Host} {lines : List String} {fault : Breakdown}
    (h : host.FailsToPrint lines fault) : ¬ ∀ line ∈ lines, host.Shows line := by
  cases h with
  | line hmem hline =>
    intro hshown
    cases (hshown _ hmem).symm.trans hline

theorem Host.FailsToPrint.mono {host : Host} {lines lines' : List String} {fault : Breakdown}
    (h : host.FailsToPrint lines fault) (hsub : lines ⊆ lines') :
    host.FailsToPrint lines' fault := by
  cases h with
  | line hmem hline => exact .line (hsub hmem) hline

/-- How printing a line of a plan fails on a host, in front of the writing or behind it. -/
inductive Plan.FailsToPrint (host : Host) (f : Folder) : Plan → Breakdown → Prop
  | finish {report : Report} {fault : Breakdown}
    (h : host.FailsToPrint report.answerLines fault) : FailsToPrint host f (.finish report) fault
  | before {path : Path} {text : String} {before : Report} {report : Option WriteFault → Report}
    {fault : Breakdown} (h : host.FailsToPrint before.answerLines fault) :
    FailsToPrint host f (.write path text before report) fault
  | written {path : Path} {text : String} {before : Report} {report : Option WriteFault → Report}
    {g : Folder} {fault : Breakdown} (hwrite : host.write f path text = .ok g)
    (h : host.FailsToPrint (report none).answerLines fault) :
    FailsToPrint host f (.write path text before report) fault
  | refused {path : Path} {text : String} {before : Report} {report : Option WriteFault → Report}
    {reason : WriteFault} {fault : Breakdown} (hwrite : host.write f path text = .error reason)
    (h : host.FailsToPrint (report (some reason)).answerLines fault) :
    FailsToPrint host f (.write path text before report) fault

namespace Report

variable {host : Host} {fault : Breakdown} {r cut : Report} {lines before : List String}

theorem stop?_eq_none_iff : stop? host lines = none ↔ ∀ line ∈ lines, host.Shows line := by
  induction lines with
  | nil => exact iff_of_true rfl nofun
  | cons line lines ih =>
    rw [List.forall_mem_cons, ← ih, Host.Shows, stop?]
    cases host.unprintable (withoutControls line) <;> simp

/-- What is printed in front of the first line that cannot be printed. -/
theorem stop?_eq_some (h : stop? host lines = some (before, fault)) :
    (∀ line ∈ before, host.Shows line) ∧ host.FailsToPrint lines fault := by
  induction lines generalizing before with
  | nil => cases h
  | cons line lines ih =>
    unfold stop? at h
    split at h
    · next hline =>
      cases h
      exact ⟨nofun, .line List.mem_cons_self hline⟩
    · next hline =>
      obtain ⟨⟨_, _⟩, hrest, hcons⟩ := Option.map_eq_some_iff.mp h
      cases hcons
      obtain ⟨hshown, hfails⟩ := ih hrest
      exact ⟨List.forall_mem_cons.mpr ⟨hline, hshown⟩, hfails.mono (List.subset_cons_self _ _)⟩

theorem cut?_eq_none_iff : r.cut? host = none ↔ ∀ line ∈ r.answerLines, host.Shows line := by
  rw [answerLines, List.forall_mem_append, ← stop?_eq_none_iff, ← stop?_eq_none_iff]
  unfold cut?
  cases stop? host r.ahead <;> simp

/-- A report is cut in front of a line that cannot be printed, and nowhere else. -/
theorem cut?_eq_some (h : r.cut? host = some cut) :
    (∀ line ∈ cut.answerLines, host.Shows line) ∧
      ∃ fault, host.FailsToPrint r.answerLines fault ∧ cut.ending = .broken fault := by
  unfold cut? at h
  split at h
  · next hahead =>
    cases h
    obtain ⟨hshown, hfails⟩ := stop?_eq_some hahead
    exact ⟨List.forall_mem_append.mpr ⟨hshown, nofun⟩,
      _, hfails.mono (List.subset_append_left _ _), rfl⟩
  · next hahead =>
    obtain ⟨⟨_, _⟩, hlines, hcut⟩ := Option.map_eq_some_iff.mp h
    cases hcut
    obtain ⟨hshown, hfails⟩ := stop?_eq_some hlines
    exact ⟨List.forall_mem_append.mpr ⟨stop?_eq_none_iff.mp hahead, hshown⟩,
      _, hfails.mono (List.subset_append_right _ _), rfl⟩

/-- What is printed can be printed. -/
theorem shows_printed (host : Host) (r : Report) :
    ∀ line ∈ (r.printed host).answerLines, host.Shows line := by
  unfold printed
  cases hcut : r.cut? host with
  | none => exact cut?_eq_none_iff.mp hcut
  | some cut => exact (cut?_eq_some hcut).1

/-- A report is printed as it is where all its lines can be printed. -/
theorem printed_of_shows (h : ∀ line ∈ r.answerLines, host.Shows line) : r.printed host = r := by
  rw [printed, cut?_eq_none_iff.mpr h, Option.getD_none]

/-- What is printed ends as the report does, unless one of its lines cannot be printed. -/
theorem ending_printed (host : Host) (r : Report) : (r.printed host).ending = r.ending ∨
    ∃ fault, host.FailsToPrint r.answerLines fault ∧ (r.printed host).ending = .broken fault := by
  unfold printed
  cases hcut : r.cut? host with
  | none => exact Or.inl rfl
  | some cut => exact Or.inr (cut?_eq_some hcut).2

/-- A report of which a line cannot be printed is broken off. -/
theorem exists_broken_printed (h : host.FailsToPrint r.answerLines fault) :
    ∃ fault', (r.printed host).ending = .broken fault' := by
  unfold printed
  cases hcut : r.cut? host with
  | none => exact absurd (cut?_eq_none_iff.mp hcut) h.not_shows
  | some cut =>
    obtain ⟨_, fault', _, hending⟩ := cut?_eq_some hcut
    exact ⟨fault', hending⟩

end Report

end CommandLine

namespace Score

variable {codecs : Encoding.Codecs} {ornament : Dynamic} {octets : List UInt8}

/-- A failure of the encoding that nothing is prepared for is handed on as it is. -/
theorem ofOctets_of_unforeseen {kind message : String}
    (h : Encoding.decode codecs octets = .error (.unforeseen kind message)) :
    ofOctets codecs ornament octets = .error (.unforeseen kind message) := by
  simp only [ofOctets, textOf, h]
  rfl

theorem decode_of_ofOctets {kind message : String}
    (h : ofOctets codecs ornament octets = .error (.unforeseen kind message)) :
    Encoding.decode codecs octets = .error (.unforeseen kind message) := by
  unfold ofOctets textOf at h
  split at h
  · next text _ =>
    change (ofText ornament text).mapError ScoreFileFault.score = _ at h
    cases htext : ofText ornament text <;> rw [htext] at h <;> cases h
  · cases h
  · next hdecode =>
    cases h
    exact hdecode

end Score

namespace CommandLine

/-- A run that cannot read its score is refused, unless the encoding fails in another way. -/
theorem Ending.ofScoreFile_cases {codecs : Encoding.Codecs} {ornament : Dynamic}
    {octets : List UInt8} {fault : ScoreFileFault}
    (h : Score.ofOctets codecs ornament octets = .error fault) : (ofScoreFile fault).Orderly ∨
      ∃ kind message, Encoding.decode codecs octets = .error (.unforeseen kind message) := by
  cases fault with
  | score fault => exact Or.inl (orderly_refused fault.message)
  | unforeseen kind message => exact Or.inr ⟨kind, message, Score.decode_of_ofOctets h⟩

end CommandLine

/-- Whether one of the lines of a text begins with a word. -/
def HasLine (start text : String) : Prop :=
  ∃ before behind, text = before ++ (start ++ behind) ∧ (before = "" ∨ ∃ s, before = s ++ "\n")

/-- What contains no start of a control sequence stays in front of what is left of the rest. -/
theorem Control.dropFrom_append {cs : List Char} (h : escapeChar ∉ cs) (ds : List Char) :
    dropFrom [] (cs ++ ds) = cs ++ dropFrom [] ds := by
  induction cs with
  | nil => rfl
  | cons c cs ih =>
    obtain ⟨hc, hcs⟩ := List.ne_and_not_mem_of_not_mem_cons h
    have hne : c ≠ escapeChar := hc.symm
    rw [List.cons_append, dropFrom, if_neg (by simpa [continues] using hne),
      if_neg (by simp [closes]), if_neg hne, ih hcs]
    rfl

theorem withoutControls_append {start : String} (h : Control.escapeChar ∉ start.toList)
    (s : String) : withoutControls (start ++ s) = start ++ withoutControls s := by
  rw [withoutControls, String.toList_append, Control.dropFrom_append h, String.ofList_append,
    String.ofList_toList]
  rfl

namespace CommandLine.Report

variable {lines : List String} {line start : String}

theorem text_append (lines lines' : List String) :
    text (lines ++ lines') = text lines ++ text lines' := by
  simp [text]

theorem text_cons (line : String) (lines : List String) :
    text (line :: lines) = line ++ "\n" ++ text lines := by
  simp [text]

/-- Lines end with a line feed, so that the next one starts anew. -/
theorem text_ends (lines : List String) : text lines = "" ∨ ∃ s, text lines = s ++ "\n" := by
  rcases lines.eq_nil_or_concat with rfl | ⟨front, line, rfl⟩
  · exact Or.inl rfl
  · exact Or.inr ⟨text front ++ line, by simp [text, String.append_assoc]⟩

/-- A line begins as it was written. -/
theorem hasLine_text (behind : String) (h : start ++ behind ∈ lines) :
    HasLine start (text lines) := by
  obtain ⟨front, back, rfl⟩ := List.append_of_mem h
  refine ⟨text front, behind ++ "\n" ++ text back, ?_, text_ends front⟩
  rw [text_append, text_cons]
  simp only [String.append_assoc]

/-- The reasons of a report are told, whatever notices are shown. -/
theorem hasLine_remarks {r : Report} {reasons : List String} (h : r.ending = .refused reasons)
    (hne : reasons ≠ []) (verbose : Bool) : HasLine "  ERROR: " (r.remarks verbose) := by
  obtain ⟨reason, hreason⟩ := List.exists_mem_of_ne_nil reasons hne
  have hplain : Control.escapeChar ∉ "  ERROR: ".toList := by decide
  refine hasLine_text (withoutControls reason) (List.mem_append_right _ ?_)
  rw [h]
  exact List.mem_map.mpr ⟨_, List.mem_map_of_mem hreason, withoutControls_append hplain reason⟩

end CommandLine.Report
end Bellows
