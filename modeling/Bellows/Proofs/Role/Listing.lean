import Bellows.Proofs.Role.Reordering
import Bellows.Role.Parameters

/-! What a parameter document lists and what comes of it: each listed part takes up one assignment,
in the order of the document, and there are no others. -/
namespace Bellows

/-- A part that is listed under a role, with what stands as its port. -/
structure Listed where
  role : Value
  part : Value
  port : Value

/-- The assignment that a listed part takes up. -/
structure Listed.Takes (l : Listed) (e : String × Assignment) : Prop where
  part : e.1 = l.part.name
  role : e.2.role = l.role.name
  port : l.port = .int e.2.port

namespace Parameters

variable {role part port : Value} {parts roles entries : List (Value × Value)}
  {m m' : Keyed String Assignment}

/-- The parts under one role. -/
def listedUnder (role : Value) (parts : List (Value × Value)) : List Listed :=
  parts.map fun e => ⟨role, e.1, e.2⟩

/-- The parts under all roles, in the order of the document. -/
def listed (roles : List (Value × Value)) : List Listed :=
  roles.flatMap fun e => match e.2 with
    | .map parts => listedUnder e.1 parts
    | _ => []

/-- A part is listed exactly under a role that has a map with it. -/
theorem mem_listed {l : Listed} :
    l ∈ listed roles ↔ ∃ parts, (l.role, .map parts) ∈ roles ∧ (l.part, l.port) ∈ parts := by
  constructor
  · intro h
    obtain ⟨⟨role, v⟩, he, hl⟩ := List.mem_flatMap.mp h
    cases v with
    | map parts =>
      obtain ⟨⟨part, port⟩, hp, rfl⟩ := List.mem_map.mp hl
      exact ⟨parts, he, hp⟩
    | _ => cases hl
  · rintro ⟨parts, he, hp⟩
    exact List.mem_flatMap.mpr ⟨_, he, List.mem_map.mpr ⟨_, hp, rfl⟩⟩

/-- Assignments to which listed parts have added their own. -/
def Adds (ls : List Listed) (m m' : Keyed String Assignment) : Prop :=
  ∃ es, m'.entries = m.entries ++ es ∧ List.Forall₂ Listed.Takes ls es

theorem Adds.refl (m : Keyed String Assignment) : Adds [] m m :=
  ⟨[], (List.append_nil _).symm, .nil⟩

theorem Adds.trans {ls ls' : List Listed} {m'' : Keyed String Assignment} (h : Adds ls m m')
    (h' : Adds ls' m' m'') : Adds (ls ++ ls') m m'' := by
  obtain ⟨es, hes, hall⟩ := h
  obtain ⟨es', hes', hall'⟩ := h'
  exact ⟨es ++ es', by rw [hes', hes, List.append_assoc], List.rel_append hall hall'⟩

theorem Adds.cons {l : Listed} {ls : List Listed} {m'' : Keyed String Assignment}
    (h : Adds [l] m m') (h' : Adds ls m' m'') : Adds (l :: ls) m m'' := h.trans h'

/-- A part that is new comes last, with its role and its port. -/
theorem addPart_eq_ok (h : addPart role m part port = .ok m') : Adds [⟨role, part, port⟩] m m' := by
  unfold addPart at h
  split at h
  · cases h
  split at h
  · cases h
  · next n hnew =>
    split at h
    · cases h
    split at h
    · next a ha =>
      cases h
      have hfresh : part.name ∉ m.entries.map Prod.fst := by
        intro hmem
        obtain ⟨⟨key, first⟩, he, rfl⟩ := List.mem_map.mp hmem
        cases hnew.symm.trans ((m.get?_eq_some_iff _ _).mpr he)
      refine ⟨[(part.name, a)], Keyed.putEntry_of_notMem hfresh, .cons ?_ .nil⟩
      unfold Assignment.of at ha
      split at ha
      · split at ha
        · cases ha
          exact ⟨rfl, rfl, rfl⟩
        · cases ha
      · cases ha
    · cases h
  · cases h

theorem addParts_eq_ok (h : addParts role m parts = .ok m') :
    Adds (listedUnder role parts) m m' := by
  induction parts generalizing m with
  | nil =>
    cases h
    exact .refl _
  | cons e rest ih =>
    obtain ⟨next, hpart, hrest⟩ := exists_of_bind_eq_ok h
    exact (addPart_eq_ok hpart).cons (ih hrest)

theorem addRoles_eq_ok (h : addRoles m roles = .ok m') : Adds (listed roles) m m' := by
  induction roles generalizing m with
  | nil =>
    cases h
    exact .refl _
  | cons e rest ih =>
    obtain ⟨role, v⟩ := e
    cases v with
    | map parts =>
      obtain ⟨next, hparts, hrest⟩ := exists_of_bind_eq_ok h
      exact (addParts_eq_ok hparts).trans (ih hrest)
    | _ => cases h

/-- The assignments of a document are those of its listed parts, one by one. -/
theorem assignments_eq_ok (h : assignments entries = .ok m) :
    ∃ roles, subEntries? "roles" entries = some roles ∧
      List.Forall₂ Listed.Takes (listed roles) m.entries := by
  unfold assignments at h
  split at h
  · next roles hroles =>
    obtain ⟨es, hes, hall⟩ := addRoles_eq_ok h
    have hentries : m.entries = es := hes
    exact ⟨roles, hroles, hentries ▸ hall⟩
  · cases h

end Parameters

namespace Settings

open Parameters

variable {entries : List (Value × Value)} {bpm step : Option Value} {s : Settings}

/-- The tempo that counts: that beside a document, else that in it, else the default. -/
def tempoOf (entries : List (Value × Value)) (bpm : Option Value) : Value :=
  bpm.getD ((Value.field? "bpm" entries).getD (.int defaultBpm))

/-- The step that counts. -/
def stepOf (entries : List (Value × Value)) (step : Option Value) : Value :=
  step.getD ((Value.field? "trill_interval_ms" entries).getD defaultStep)

/-- Settings hold the values that they were made from. -/
theorem of_eq_ok {tempo length : Value} {assigned : Keyed String Assignment} {curve : Curve}
    (h : Settings.of tempo assigned curve length = .ok s) :
    tempo = .int s.bpm ∧ assigned = s.assignments ∧ curve = s.curve ∧ length = s.step ∧
      ∃ q, s.step.quantity? = some q ∧ q.le (.whole 0) = false := by
  unfold Settings.of at h
  split at h
  · split at h
    · split at h
      · cases h
      · next q hq =>
        split at h
        · cases h
        · next hle =>
          cases h
          exact ⟨rfl, rfl, rfl, rfl, q, hq, eq_false_of_ne_true hle⟩
    · cases h
  · cases h

/-- A document with settings has a section of loudness and a section of roles that are in order. -/
theorem ofDocument_eq_ok (h : ofDocument entries bpm step = .ok s) :
    ∃ dynamics, subEntries? "dynamics" entries = some dynamics ∧
      Parameters.assignments entries = .ok s.assignments ∧ Curve.ofMap dynamics = .ok s.curve ∧
      tempoOf entries bpm = .int s.bpm ∧ stepOf entries step = s.step ∧
      ∃ q, s.step.quantity? = some q ∧ q.le (.whole 0) = false := by
  unfold ofDocument at h
  split at h
  · cases h
  · next dynamics hdynamics =>
    obtain ⟨assigned, hassigned, h⟩ := exists_of_bind_eq_ok h
    split at h
    · cases h
    · next curve hcurve =>
      dsimp only at h
      split at h
      · cases h
      · next settings hsettings =>
        cases h
        obtain ⟨hbpm, rfl, rfl, hstep, hpositive⟩ := of_eq_ok hsettings
        exact ⟨dynamics, hdynamics, hassigned, hcurve, hbpm, hstep, hpositive⟩

/-- The roles of some settings are those under which their document lists a part. -/
theorem mem_roles_iff_listed (h : ofDocument entries bpm step = .ok s) :
    ∃ roles, subEntries? "roles" entries = some roles ∧ ∀ name, name ∈ s.roles.map Role.name ↔
      ∃ role parts, (role, .map parts) ∈ roles ∧ role.name = name ∧ parts ≠ [] := by
  obtain ⟨_, _, hassigned, _⟩ := ofDocument_eq_ok h
  obtain ⟨roles, hroles, hall⟩ := assignments_eq_ok hassigned
  refine ⟨roles, hroles, fun name => mem_names_iff.trans ⟨?_, ?_⟩⟩
  · rintro ⟨e, he, rfl⟩
    obtain ⟨l, hl, htakes⟩ := exists_left_of_mem hall he
    obtain ⟨parts, hparts, hpart⟩ := mem_listed.mp hl
    exact ⟨l.role, parts, hparts, htakes.role.symm, List.ne_nil_of_mem hpart⟩
  · rintro ⟨role, parts, hparts, rfl, hne⟩
    obtain ⟨e, he⟩ := List.exists_mem_of_ne_nil parts hne
    obtain ⟨a, ha, htakes⟩ := exists_right_of_mem hall
      (mem_listed (l := ⟨role, e.1, e.2⟩) |>.mpr ⟨parts, hparts, he⟩)
    exact ⟨a, ha, htakes.role⟩

end Settings
end Bellows
