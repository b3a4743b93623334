import Mathlib.Data.List.FinRange
import Bellows.Proofs.Command.Report
import Bellows.Proofs.Command.Safety
import Bellows.Proofs.Command.Voices

/-! Any number of requests resolved at once: who is to blame for a contradiction, which valves open,
how loud the pump is, and that neither the order nor idle ports matter. -/
namespace Bellows

/-- A site tells where a request comes from: its part by name, or a hyphen where no part drives the
port. -/
structure ConflictSite.Tells (s : ConflictSite) (r : Request) : Prop where
  port : s.port = r.port
  measure : s.measure = r.event.measure
  note : s.note = r.event.note
  action : s.action = r.action
  part : ∀ name, r.part = some name → name ≠ "" → s.part = name
  undriven : r.part = none → s.part = "-"

/-- The same command with its valves in another order. -/
structure Command.Reordered {n : Nat} (σ : Equiv.Perm (Fin n)) (c c' : Command) : Prop where
  action : c.action = c'.action
  intensity : c.intensity = c'.intensity
  valves : ∃ valves, c.valves = List.ofFn valves ∧ c'.valves = List.ofFn (valves ∘ σ)

/-- The same conflict with its sites in another order. -/
structure Conflict.Reordered (k k' : Conflict) : Prop where
  role : k.role = k'.role
  time : k.time = k'.time
  sites : k.sites.Perm k'.sites

/-- The same command with a closed valve behind the first `n` valves. -/
structure Command.Widened (n : Nat) (c c' : Command) : Prop where
  action : c.action = c'.action
  intensity : c.intensity = c'.intensity
  valves : ∃ front back, front.length = n ∧ c.valves = front ++ back ∧
    c'.valves = front ++ .closed :: back

namespace Resolution

variable {curve : Curve} {role : String} {time : Binary64} {requests before after : List Request}
  {c : Command} {k : Conflict} {r idle : Request} {a b : Action}

theorem tells_site (r : Request) : (site r).Tells r := by
  refine ⟨rfl, rfl, rfl, rfl, ?_, ?_⟩
  · intro name hname hne
    simp [site, partLabel, hname, hne]
  · intro hnone
    simp [site, partLabel, hnone]

/-- The strength of the pump: that of the strongest request for air, or none. -/
inductive Loudest (curve : Curve) (requests : List Request) : Int → Prop
  | request {r : Request} (hr : r ∈ requests) (hin : r.action.inflates = true)
      (hmax : ∀ q ∈ requests, q.action.inflates = true → strength curve q ≤ strength curve r) :
      Loudest curve requests (strength curve r)
  | silence (h : ∀ r ∈ requests, ¬ r.action.inflates = true) : Loudest curve requests 0

theorem loudest_intensity (curve : Curve) (requests : List Request) :
    Loudest curve requests (intensity curve requests) := by
  by_cases hin : ∃ r ∈ requests, r.action.inflates = true
  · obtain ⟨r, hr, hr'⟩ := hin
    obtain ⟨q, hq, hq', heq⟩ : ∃ q ∈ requests, q.action.inflates = true ∧
        intensity curve requests = strength curve q := exists_strength_eq hr hr'
    rw [heq]
    apply Loudest.request hq hq'
    intro p hp hp'
    rw [← heq]
    exact strength_le_intensity hp hp'
  · have hsilent : ∀ r ∈ requests, ¬ r.action.inflates = true := by
      intro r hr hr'
      exact hin ⟨r, hr, hr'⟩
    have hzero : intensity curve requests = 0 := by
      by_contra hne
      obtain ⟨r, hr, hr', _⟩ := exists_strength hne
      exact hsilent r hr hr'
    rw [hzero]
    exact .silence hsilent

/-- An idle port asks for nothing that counts. -/
theorem asks_insert (hidle : idle.action = .noChange) (ha : a ≠ .noChange) :
    asks (before ++ idle :: after) a = asks (before ++ after) a := by
  simp [asks, hidle, ha.symm]

theorem settle_insert (hidle : idle.action = .noChange) :
    settle (before ++ idle :: after) = settle (before ++ after) := by
  simp only [settle, asks_insert hidle (a := .trillInflate) (by decide),
    asks_insert hidle (a := .trillRelease) (by decide),
    asks_insert hidle (a := .inflate) (by decide), asks_insert hidle (a := .release) (by decide)]

theorem intensity_insert (curve : Curve) (hidle : idle.action = .noChange) :
    intensity curve (before ++ idle :: after) = intensity curve (before ++ after) := by
  have hquiet : idle.action.inflates = false := by
    rw [hidle]
    rfl
  simp [intensity, hquiet]

theorem sites_insert (hidle : idle.action = .noChange) (ha : a ≠ .noChange) (hb : b ≠ .noChange) :
    sites (before ++ idle :: after) (a, b) = sites (before ++ after) (a, b) := by
  simp [sites, hidle, ha.symm, hb.symm]

theorem valve_idle (settled : Action) (hidle : idle.action = .noChange) :
    valve settled idle = .closed := by
  cases settled <;> simp [valve, Valve.ofBool, hidle]

/-- What resolving makes of some requests, however many there are. -/
structure Lawful (curve : Curve) (role : String) (time : Binary64) (requests : List Request) :
    Prop where
  conflict_iff : (∃ k, resolve curve role time requests = .error k) ↔
    Action.Contradict (asked requests)
  /-- The sites of a conflict are the requests for its two actions, in their order. -/
  conflict : ∀ k, resolve curve role time requests = .error k → k.role = role ∧ k.time = time ∧
    ∃ a b, Action.Clash (asked requests) a b ∧ List.Forall₂ (fun r s => ConflictSite.Tells s r)
      (requests.filter fun r => r.action = a ∨ r.action = b) k.sites
  /-- A command has a valve for each request, open where that asks for what was settled on. -/
  command : ∀ c, resolve curve role time requests = .ok c → ∃ a, Action.Settles (asked requests) a ∧
    c.action = pumpAction a ∧ Loudest curve requests c.intensity ∧
    List.Forall₂ (fun r v => v = .opened ↔ a ≠ .noChange ∧ r.action = a) requests c.valves
  /-- In another order the requests have the same outcome, with the valves in that order. -/
  reordered : ∀ σ : Equiv.Perm (Fin requests.length),
    settle requests = settle (List.ofFn (requests.get ∘ σ)) ∧
    EndRelated (Command.Reordered σ) Conflict.Reordered (resolve curve role time requests)
      (resolve curve role time (List.ofFn (requests.get ∘ σ)))
  /-- An idle port between the others has a closed valve, and changes nothing else. -/
  widened : ∀ before after idle, requests = before ++ after → idle.action = .noChange →
    settle requests = settle (before ++ idle :: after) ∧
    EndRelated (Command.Widened before.length) (· = ·) (resolve curve role time requests)
      (resolve curve role time (before ++ idle :: after))

theorem contradict_of_resolve (h : resolve curve role time requests = .error k) :
    Action.Contradict (asked requests) := by
  obtain ⟨⟨a, b⟩, hsettle, _⟩ := conflict_of_resolve h
  exact (clash_of_settle hsettle).contradict

theorem forall₂_sites (requests : List Request) (a b : Action) :
    List.Forall₂ (fun r s => ConflictSite.Tells s r)
      (requests.filter fun r => r.action = a ∨ r.action = b) (sites requests (a, b)) := by
  have hfilter : sites requests (a, b) =
      (requests.filter fun r => r.action = a ∨ r.action = b).map site := by
    simp [sites]
  rw [hfilter, List.forall₂_map_right_iff]
  exact List.forall₂_same.mpr fun r _ => tells_site r

theorem forall₂_valves (requests : List Request) (a : Action) :
    List.Forall₂ (fun r v => v = .opened ↔ a ≠ .noChange ∧ r.action = a) requests
      (requests.map (valve a)) := by
  rw [List.forall₂_map_right_iff]
  exact List.forall₂_same.mpr fun r _ => valve_eq_opened

section

variable (curve : Curve) (role : String) (time : Binary64)

theorem resolve_reordered {requests' : List Request} (σ : Equiv.Perm (Fin requests.length))
    (hrequests' : requests' = List.ofFn (requests.get ∘ σ)) :
    settle requests = settle requests' ∧
    EndRelated (Command.Reordered σ) Conflict.Reordered (resolve curve role time requests)
      (resolve curve role time requests') := by
  have hperm : requests.Perm requests' := by
    have hσ := σ.ofFn_comp_perm requests.get
    rw [List.ofFn_get, ← hrequests'] at hσ
    exact hσ.symm
  have hvoices := hperm.map Request.voice
  have hsettle := settle_eq_of_voices hvoices
  refine ⟨hsettle, ?_⟩
  unfold resolve
  rw [← hsettle]
  cases settle requests with
  | error pair => exact .error ⟨rfl, rfl, (hperm.filter _).map site⟩
  | ok a =>
    have hintensity := congrArg Int.ofNat (intensity_eq_of_voices curve hvoices)
    refine .ok ⟨rfl, hintensity, valve a ∘ requests.get, ?_, ?_⟩
    · simp [command, ← List.map_ofFn]
    · simp [command, hrequests', List.map_ofFn, Function.comp_assoc]

theorem resolve_widened (hidle : idle.action = .noChange) :
    settle (before ++ after) = settle (before ++ idle :: after) ∧
    EndRelated (Command.Widened before.length) (· = ·)
      (resolve curve role time (before ++ after))
      (resolve curve role time (before ++ idle :: after)) := by
  refine ⟨(settle_insert hidle).symm, ?_⟩
  unfold resolve
  rw [settle_insert hidle]
  cases hsettle : settle (before ++ after) with
  | error pair =>
    obtain ⟨a, b⟩ := pair
    obtain ⟨ha, hb⟩ := (opposed_of_settle hsettle).1.ne_noChange
    dsimp only
    rw [sites_insert hidle ha hb]
    exact .error rfl
  | ok a =>
    have hintensity : intensity curve (before ++ after) =
        intensity curve (before ++ idle :: after) := (intensity_insert curve hidle).symm
    refine .ok ⟨rfl, congrArg Int.ofNat hintensity, before.map (valve a), after.map (valve a),
      ?_, ?_, ?_⟩
    · simp
    · simp [command]
    · simp [command, valve_idle a hidle]

/-- The law of resolving holds for any number of requests, at every curve. -/
theorem resolve_lawful (requests : List Request) : Lawful curve role time requests where
  conflict_iff := by
    constructor
    · rintro ⟨k, hk⟩
      exact contradict_of_resolve hk
    · intro hcontradict
      obtain ⟨k, hk, _⟩ := exists_resolve_eq_error curve role time hcontradict
      exact ⟨k, hk⟩
  conflict := by
    intro k hk
    obtain ⟨⟨a, b⟩, hsettle, rfl⟩ := conflict_of_resolve hk
    exact ⟨rfl, rfl, a, b, clash_of_settle hsettle, forall₂_sites requests a b⟩
  command := by
    intro c hc
    obtain ⟨a, hsettles, _, rfl⟩ := exists_settled hc
    exact ⟨a, hsettles, rfl, loudest_intensity curve requests, forall₂_valves requests a⟩
  reordered := by
    intro σ
    exact resolve_reordered curve role time σ rfl
  widened := by
    rintro before after idle rfl hidle
    exact resolve_widened curve role time hidle

end

end Resolution
end Bellows
