import Bellows.Proofs.Command.Rebarring
import Bellows.Proofs.Conversion.Reordering
import Bellows.Proofs.Score.Loudness
import Bellows.Proofs.Score.Splitting

/-! Barlines carry no meaning of their own. Scores in which the same notes stand in other measures
have the same schedule; it is only reports of conflicts that name measures. -/
namespace Bellows

variable {score score' : Score}

namespace Score.Rebarred

variable (h : score.Rebarred score')
include h

theorem contains_eq (part : String) : score.contains part = score'.contains part :=
  isSome_eq_of_rel (Keyed.rel_find? h part)

theorem counted_eq (part : String) :
    (Role.measuresOf score part).flatMap Measure.counted =
      (Role.measuresOf score' part).flatMap Measure.counted := by
  have hmeasures : Option.Rel Measure.SameNotes ((score.get? part).map Part.measures)
      ((score'.get? part).map Part.measures) :=
    rel_map (Keyed.rel_find? h part) fun _ _ hp => hp.measures
  exact (rel_getD hmeasures ⟨rfl, rfl⟩).counted

end Score.Rebarred

namespace Settings

open Conversion

variable {settings : Settings} {pace : Pace}

/-- The timelines of a role are the same, or it cannot be played for the same reason. -/
theorem timelinesRelated_rebarred (h : score.Rebarred score') (hscore : score.Regular)
    (hscore' : score'.Regular) (hpace : settings.pace = .ok pace) (r : Role) :
    TimelinesRelated (RoleTimelines.Matched (List.Forall₂ Event.Rebarred)) (· = ·)
      (r.timelines pace score) (r.timelines pace score') := by
  refine .of_endAlike (Role.timelines_matched h.contains_eq fun m _ => ?_)
  refine Pace.events_rebarred (tempo_of_pace hpace) ?_ ?_ (h.counted_eq m.part)
  · exact Pace.mul_ne_zero_of_regular settings.bpm_pos
      fun _ hm => Role.regular_measuresOf hscore m.part hm
  · exact Pace.mul_ne_zero_of_regular settings.bpm_pos
      fun _ hm => Role.regular_measuresOf hscore' m.part hm

/-- Scores in which the same notes stand in other measures have the same schedule, or fail for the
same reasons. -/
theorem convert_rebarred (h : score.Rebarred score') (hscore : score.Regular)
    (hscore' : score'.Regular) (hpace : settings.pace = .ok pace) (tolerance : Binary64) :
    OutcomesRelated (· = ·) (· = ·) Conflict.Rebarred (· = ·)
      (settings.convert pace tolerance score) (settings.convert pace tolerance score') := by
  have hroles : UpToOrder (fun r r' => TimelinesRelated
      (RoleTimelines.Matched (List.Forall₂ Event.Rebarred)) (· = ·)
      (r.timelines pace score) (r'.timelines pace score')) settings.roles settings.roles :=
    .of_forall₂ (List.forall₂_same.mpr fun r _ =>
      timelinesRelated_rebarred h hscore hscore' hpace r)
  have haxis : ∀ ts ts', Played pace score ts →
      UpToOrder (RoleTimelines.Matched (List.Forall₂ Event.Rebarred)) ts ts' →
      axis tolerance ts = axis tolerance ts' := by
    intro ts ts' hplayed hts
    refine (hplayed.sameTicks_axis hpace tolerance ?_).2 hscore
    exact perm_starts_of_upToOrder hts
      fun t t' ht => .of_eq (ht.starts_eq Event.kindred_rebarred)
  have hmerge : ∀ ticks ticks', Axis.Ascending ticks → Axis.Ascending ticks' → ticks = ticks' →
      ∀ t t' : RoleTimelines, t.Matched (List.Forall₂ Event.Rebarred) t' →
        EndRelated (fun commands commands' => (t.role, commands) = (t'.role, commands'))
          Conflict.Rebarred (t.merge settings.curve ticks) (t'.merge settings.curve ticks') := by
    rintro ticks _ hticks _ rfl t t' ht
    exact (ht.merge_rebarred settings.curve hticks).imp
      (fun _ _ hcommands => Prod.ext ht.role hcommands) fun _ _ _ hconflict => hconflict
  refine (outcomesRelated (C := (· = ·)) (A := (· = ·)) hroles haxis hmerge).imp ?_ ?_
  · -- the roles of both schedules are those of the settings, in their order
    intro s s' hs hs' hsame
    obtain ⟨_, hc⟩ := exists_compiled hs
    obtain ⟨_, hc'⟩ := exists_compiled hs'
    obtain ⟨time, instructions⟩ := s
    obtain ⟨time', instructions'⟩ := s'
    obtain rfl : time = time' := hsame.1
    rw [Schedule.mk.injEq]
    exact ⟨rfl, Keyed.eq_of_perm (hc.roles_eq.trans hc'.roles_eq.symm) hsame.2.perm⟩
  · intro f f' hf hf' _
    have hdivisions {score : Score} (hscore : score.Regular) : ∀ part ∈ settings.assignments.keys,
        ∀ m ∈ Role.measuresOf score part, m.divisions ≠ 0 := fun part _ m hm =>
      Int.ne_of_gt (Role.regular_measuresOf hscore part hm).divisions_pos
    rw [layout_eq_tooLong hpace (hdivisions hscore) hf,
      layout_eq_tooLong hpace (hdivisions hscore') hf']

/-- Barlines carry no meaning of their own. If a measure of a document is split at a point behind
which it states nothing, or two such measures are joined, the document is accepted as before, and
its notes are the same. Every conversion of it ends in the same schedule, or for the same reasons:
it is only reports of conflicts that name other measures. -/
theorem convert_split {root root' : Xml.Element} (h : root.Split root') (ornament : Dynamic) :
    SucceedAlike
      (fun score score' => score.Rebarred score' ∧
        ∀ (settings : Settings) (pace : Pace) (tolerance : Binary64), settings.pace = .ok pace →
          OutcomesRelated (· = ·) (· = ·) Conflict.Rebarred (· = ·)
            (settings.convert pace tolerance score) (settings.convert pace tolerance score'))
      (Score.ofElement ornament root) (Score.ofElement ornament root') := by
  have hread := Score.rebarred_of_split h ornament
  generalize hroot : Score.ofElement ornament root = result,
    hroot' : Score.ofElement ornament root' = result' at hread
  cases hread with
  | error _ => exact .error trivial
  | ok hscore =>
    refine .ok ⟨hscore, fun settings pace tolerance hpace => ?_⟩
    exact convert_rebarred hscore (Score.regular_of_ofElement hroot)
      (Score.regular_of_ofElement hroot') hpace tolerance

end Settings

namespace Conversion.Duet

open Xml (Element)
open MusicXml Score.Sketch

def declared (id name : String) : Element :=
  .mk "score-part" [("id", id)] "" [leaf "part-name" name]

def direction (mark : String) : Element := node "direction" [marking mark]

def note (duration : String) (children : List Element) : Element :=
  node "note" (leaf "duration" duration :: children)

def hold : Element := note "1" [leaf "notehead" "x"]

def ornament : Element := note "1" [node "notations" [node "ornaments" [leaf "trill-mark" ""]]]

/-- A document of the duet, with some measures for the high part. -/
def document (high : List Element) : Element := node "score-partwise" [
  declared "P1" "Low", declared "P2" "High",
  part "P1" [node "measure" [attributes, direction "mf", note "2" []]], part "P2" high]

/-- The high part in one measure. -/
def whole : Element := node "measure" [attributes, hold, direction "p", ornament]

/-- The same in two measures. -/
def halves : List Element :=
  [node "measure" [attributes, hold], node "measure" [direction "p", ornament]]

theorem ofElement_document : Score.ofElement .mf (document [whole]) = .ok Duet.score := by
  have hlow : readMeasures .mf "P1" .start 1
      [node "measure" [attributes, direction "mf", note "2" []]] =
        .ok [⟨1, ⟨2, 4⟩, 1, [⟨.actuate .mf, 2⟩]⟩] := by
    rw [readMeasures, node, readMeasure_attributes rfl (readAttributes_attributes _)]
    rfl
  have hhigh : readMeasures .mf "P2" .start 1 [whole] =
      .ok [⟨1, ⟨2, 4⟩, 1, [⟨.hold, 1⟩, ⟨.hardTrill .p, 1⟩]⟩] := by
    rw [readMeasures, whole, node, readMeasure_attributes rfl (readAttributes_attributes _)]
    rfl
  refine Score.ofElement_eq_ok_iff.mpr ⟨Keyed.ofList [("P1", "Low"), ("P2", "High")], _, rfl, rfl,
    by decide, .cons ⟨rfl, readPart_eq_ok_iff.mpr ?_⟩ (.cons ⟨rfl, readPart_eq_ok_iff.mpr ?_⟩ .nil)⟩
  · exact ⟨_, rfl, hlow, List.cons_ne_nil _ _, rfl⟩
  · exact ⟨_, rfl, hhigh, List.cons_ne_nil _ _, rfl⟩

theorem split_document : (document [whole]).Split (document halves) :=
  .deeper "score-partwise" [] "" [_, _, _] []
    (.here [("id", "P2")] "" [] [] rfl rfl rfl rfl (by decide))

end Conversion.Duet

open Conversion in
/-- With the measure of the high part split in two, the duet has the same schedule. -/
theorem Settings.convert_split_duet :
    (Duet.document [Duet.whole]).Split (Duet.document Duet.halves) ∧
    Score.ofElement .mf (Duet.document [Duet.whole]) = .ok Duet.score ∧
    Duet.settings.pace = .ok Duet.pace ∧
    ∃ score, Score.ofElement .mf (Duet.document Duet.halves) = .ok score ∧
      Duet.score.Rebarred score ∧
      Duet.settings.convert Duet.pace (.ofNat 1) score = .ok Duet.schedule := by
  refine ⟨Duet.split_document, Duet.ofElement_document, Duet.pace_eq, ?_⟩
  obtain ⟨score, hscore, hsame, hconvert⟩ :=
    (convert_split Duet.split_document .mf).exists_right Duet.ofElement_document
  have hends := hconvert Duet.settings Duet.pace (.ofNat 1) Duet.pace_eq
  rw [Duet.convert_eq] at hends
  refine ⟨score, hscore, hsame, ?_⟩
  generalize Duet.settings.convert Duet.pace (.ofNat 1) score = outcome at hends ⊢
  cases hends with
  | schedule h => rw [h]

end Bellows
