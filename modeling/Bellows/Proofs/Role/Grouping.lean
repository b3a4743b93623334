import Bellows.Proofs.Keyed
import Bellows.Proofs.Role.Listing

/-! Which sections of roles give assignments, and how these are grouped: by the names of the roles,
in the order in which a part is first listed under them, with every listed part in one place. -/
namespace Bellows

/-- A listed part whose role has a name and whose port is one of the five. -/
structure Listed.Fits (l : Listed) : Prop where
  port : ∃ n : Int, l.port = .int n ∧ 1 ≤ n ∧ n ≤ portCount
  role : l.role.name ≠ ""

/-- A listed part that can be written, and its role with it. -/
structure Listed.Writable (l : Listed) : Prop where
  part : l.part.isTooLong = false
  role : l.role.isTooLong = false

/-- The member that a listed part becomes. -/
structure Listed.Joins (l : Listed) (m : Member) : Prop where
  part : m.part = l.part.name
  port : l.port = .int m.port

/-- Roles that group listed parts: under the names in the order in which they are first named, the
parts of each name in their order, and no part in two places. -/
structure Grouped (ls : List Listed) (rs : List Role) : Prop where
  names : rs.map Role.name = (ls.map fun l => l.role.name).eraseDups
  members : ∀ r ∈ rs, List.Forall₂ Listed.Joins (ls.filter fun l => l.role.name = r.name) r.members
  parts : ((rs.flatMap Role.members).map Member.part).Perm (ls.map fun l => l.part.name)
  once : ((rs.flatMap Role.members).map Member.part).Nodup

namespace Parameters

/-- A section of roles in which every role is a map, every listed part fits, and no two of them have
the same name. -/
structure Assignable (roles : List (Value × Value)) : Prop where
  maps : ∀ e ∈ roles, ∃ parts, e.2 = .map parts
  fits : ∀ l ∈ listed roles, l.Fits
  distinct : ((listed roles).map fun l => l.part.name).Nodup

variable {role part port : Value} {parts roles entries : List (Value × Value)}
  {m m' : Keyed String Assignment} {l : Listed} {ls : List Listed}

theorem Adds.keys_eq (h : Adds ls m m') : m'.keys = m.keys ++ ls.map fun l => l.part.name := by
  obtain ⟨es, hes, hall⟩ := h
  have hnames : (ls.map fun l => l.part.name) = es.map Prod.fst :=
    map_eq_of_forall₂ hall fun _ _ htakes => htakes.part.symm
  rw [Keyed.keys, hes, List.map_append, hnames]
  rfl

/-- What was added fits, for assignments have a role with a name and a port of the five. -/
theorem Adds.fits (h : Adds ls m m') (hl : l ∈ ls) : l.Fits := by
  obtain ⟨es, -, hall⟩ := h
  obtain ⟨e, -, htakes⟩ := exists_right_of_mem hall hl
  exact ⟨⟨e.2.port, htakes.port, e.2.port_mem⟩, htakes.role ▸ e.2.role_ne_empty⟩

theorem maps_of_addRoles (h : addRoles m roles = .ok m') :
    ∀ e ∈ roles, ∃ parts, e.2 = .map parts := by
  induction roles generalizing m with
  | nil =>
    intro e he
    cases he
  | cons e rest ih =>
    obtain ⟨role, v⟩ := e
    cases v with
    | map parts =>
      obtain ⟨next, -, hrest⟩ := exists_of_bind_eq_ok h
      exact List.forall_mem_cons.mpr ⟨⟨parts, rfl⟩, ih hrest⟩
    | _ => cases h

/-- A part that fits and is new is added. -/
theorem exists_addPart (hwritable : Listed.Writable ⟨role, part, port⟩)
    (hfits : Listed.Fits ⟨role, part, port⟩) (hnew : part.name ∉ m.keys) :
    ∃ m', addPart role m part port = .ok m' := by
  obtain ⟨⟨n, rfl, hn⟩, hname⟩ := hfits
  have hnone : m.get? part.name = none := by
    rw [← Option.not_isSome_iff_eq_none]
    exact fun hsome => hnew (Keyed.contains_iff_mem_keys.mp hsome)
  have hassigned : Assignment.of role.name n = .ok ⟨role.name, n, hname, hn⟩ :=
    (dif_pos hname).trans (dif_pos hn)
  refine ⟨m.put part.name ⟨role.name, n, hname, hn⟩, ?_⟩
  unfold addPart
  rw [if_neg (by simp [hwritable.part]), hnone]
  dsimp only
  rw [if_neg (by simp [hwritable.role]), hassigned]

theorem exists_addParts (hwritable : ∀ l ∈ listedUnder role parts, l.Writable)
    (hfits : ∀ l ∈ listedUnder role parts, l.Fits)
    (hnodup : (m.keys ++ (listedUnder role parts).map fun l => l.part.name).Nodup) :
    ∃ m', addParts role m parts = .ok m' := by
  -- on the parts of the role; what is added keeps them new
  induction parts generalizing m with
  | nil => exact ⟨m, rfl⟩
  | cons e rest ih =>
    obtain ⟨part, port⟩ := e
    obtain ⟨hfirst, hrest⟩ := List.forall_mem_cons.mp hwritable
    obtain ⟨hfit, hfits⟩ := List.forall_mem_cons.mp hfits
    have hnew : part.name ∉ m.keys := fun hmem =>
      (List.nodup_append.mp hnodup).2.2 _ hmem _ List.mem_cons_self rfl
    obtain ⟨next, hnext⟩ := exists_addPart hfirst hfit hnew
    have hkeys := (addPart_eq_ok hnext).keys_eq
    obtain ⟨m', hm'⟩ := ih hrest hfits (by rw [hkeys, List.append_assoc]; exact hnodup)
    refine ⟨m', ?_⟩
    rw [addParts, hnext]
    exact hm'

theorem exists_addRoles (hmaps : ∀ e ∈ roles, ∃ parts, e.2 = .map parts)
    (hwritable : ∀ l ∈ listed roles, l.Writable) (hfits : ∀ l ∈ listed roles, l.Fits)
    (hnodup : (m.keys ++ (listed roles).map fun l => l.part.name).Nodup) :
    ∃ m', addRoles m roles = .ok m' := by
  induction roles generalizing m with
  | nil => exact ⟨m, rfl⟩
  | cons e rest ih =>
    obtain ⟨role, v⟩ := e
    obtain ⟨⟨parts, rfl⟩, hrest⟩ := List.forall_mem_cons.mp hmaps
    have hlisted : listed ((role, .map parts) :: rest) =
      listedUnder role parts ++ listed rest := rfl
    rw [hlisted] at hwritable hfits hnodup
    obtain ⟨hfirst, hwritable⟩ := List.forall_mem_append.mp hwritable
    obtain ⟨hfit, hfits⟩ := List.forall_mem_append.mp hfits
    rw [List.map_append, ← List.append_assoc] at hnodup
    obtain ⟨next, hnext⟩ := exists_addParts hfirst hfit (List.nodup_append.mp hnodup).1
    have hkeys := (addParts_eq_ok hnext).keys_eq
    obtain ⟨m', hm'⟩ := ih hrest hwritable hfits (by rw [hkeys]; exact hnodup)
    refine ⟨m', ?_⟩
    rw [addRoles, hnext]
    exact hm'

end Parameters

namespace Settings

variable {assignments : List (String × Assignment)} {ls : List Listed}

theorem perm_addMember (name : String) (m : Member) (rs : List Role) :
    ((addMember name m rs).flatMap Role.members).Perm (rs.flatMap Role.members ++ [m]) := by
  induction rs with
  | nil => rfl
  | cons r rs ih =>
    unfold addMember
    split
    · rw [List.flatMap_cons, List.flatMap_cons, List.append_assoc, List.append_assoc]
      exact List.perm_append_comm.append_left r.members
    · rw [List.flatMap_cons, List.flatMap_cons, List.append_assoc]
      exact ih.append_left r.members

/-- The members of all roles are the assigned parts, each once. -/
theorem perm_members_rolesOf (assignments : List (String × Assignment)) :
    ((rolesOf assignments).flatMap Role.members).Perm
      (assignments.map fun a => ⟨a.1, a.2.port⟩) := by
  induction assignments using List.reverseRecOn with
  | nil => rfl
  | append_singleton assignments a ih =>
    rw [rolesOf_concat, List.map_append]
    exact (perm_addMember _ _ _).trans (ih.append_right _)

/-- Assignments that listed parts take up are grouped as these are listed. -/
theorem grouped_rolesOf (hall : List.Forall₂ Listed.Takes ls assignments)
    (hdistinct : (assignments.map Prod.fst).Nodup) : Grouped ls (rolesOf assignments) := by
  have hroles : (ls.map fun l => l.role.name) = assignments.map fun a => a.2.role :=
    map_eq_of_forall₂ hall fun _ _ htakes => htakes.role.symm
  have hparts : (ls.map fun l => l.part.name) = assignments.map Prod.fst :=
    map_eq_of_forall₂ hall fun _ _ htakes => htakes.part.symm
  have hperm : (((rolesOf assignments).flatMap Role.members).map Member.part).Perm
      (assignments.map Prod.fst) := by
    simpa [List.map_map, Function.comp_def] using (perm_members_rolesOf assignments).map Member.part
  refine ⟨by rw [names_rolesOf, hroles], fun r hr => ?_, hparts ▸ hperm,
    hperm.nodup_iff.mpr hdistinct⟩
  have hfilter : List.Forall₂ Listed.Takes (ls.filter fun l => l.role.name = r.name)
      (assignments.filter fun a => a.2.role = r.name) :=
    List.rel_filter (fun l a htakes => by simp [htakes.role]) hall
  rw [members_of_mem_rolesOf hr, List.forall₂_map_right_iff]
  exact hfilter.imp fun l a htakes => ⟨htakes.part, htakes.port⟩

end Settings

namespace Parameters

variable {roles entries : List (Value × Value)}

theorem assignments_eq_addRoles (hroles : Value.field? "roles" entries = some (.map roles)) :
    assignments entries = addRoles .empty roles := by
  have hsection : subEntries? "roles" entries = some roles := by
    unfold subEntries? Value.field
    rw [hroles]
    cases roles <;> rfl
  rw [assignments, hsection]

theorem exists_addRoles_iff (hwritable : ∀ l ∈ listed roles, l.Writable) :
    (∃ m, addRoles .empty roles = .ok m) ↔ Assignable roles := by
  constructor
  · rintro ⟨m, hm⟩
    have hadds := addRoles_eq_ok hm
    have hkeys : m.keys = (listed roles).map fun l => l.part.name := hadds.keys_eq
    exact ⟨maps_of_addRoles hm, fun l hl => hadds.fits hl, hkeys ▸ m.distinct⟩
  · intro h
    exact exists_addRoles h.maps hwritable h.fits h.distinct

/-- No section in which two parts have one name is in order. -/
theorem not_assignable_of_twice {l l' : Listed} (h : [l, l'].Sublist (listed roles))
    (hname : l.part.name = l'.part.name) : ¬ Assignable roles := by
  intro hroles
  have htwice := hroles.distinct.sublist (h.map fun l => l.part.name)
  simp [hname] at htwice

/-- A section of roles gives assignments exactly where every role in it is a map, every listed part
fits and no name is listed twice, and these are grouped by the names of the roles. Any other section
gives no settings, and one with a part that is listed twice never does. -/
theorem assignable_iff_and_grouped (hroles : Value.field? "roles" entries = some (.map roles))
    (hwritable : ∀ l ∈ listed roles, l.Writable) :
    ((∃ m, assignments entries = .ok m) ↔ Assignable roles) ∧
      (∀ m, assignments entries = .ok m →
        Grouped (listed roles) (Settings.rolesOf m.entries)) ∧
      (∀ bpm step s, Settings.ofDocument entries bpm step = .ok s →
        Assignable roles ∧ Grouped (listed roles) s.roles) ∧
      (¬ Assignable roles → ∀ bpm step, ∃ fault,
        Settings.ofDocument entries bpm step = .error fault) ∧
      ∀ l l', [l, l'].Sublist (listed roles) → l.part.name = l'.part.name →
        ∀ bpm step, ∃ fault, Settings.ofDocument entries bpm step = .error fault := by
  have hiff : (∃ m, assignments entries = .ok m) ↔ Assignable roles := by
    rw [assignments_eq_addRoles hroles]
    exact exists_addRoles_iff hwritable
  have hgrouped : ∀ m, assignments entries = .ok m →
      Grouped (listed roles) (Settings.rolesOf m.entries) := by
    intro m hm
    rw [assignments_eq_addRoles hroles] at hm
    obtain ⟨es, hes, hall⟩ := addRoles_eq_ok hm
    have hentries : m.entries = es := hes
    exact Settings.grouped_rolesOf (hentries ▸ hall) m.distinct
  have hrefused : ¬ Assignable roles → ∀ bpm step, ∃ fault,
      Settings.ofDocument entries bpm step = .error fault := by
    intro hnot bpm step
    cases h : Settings.ofDocument entries bpm step with
    | error fault => exact ⟨fault, rfl⟩
    | ok s =>
      obtain ⟨_, _, hassigned, _⟩ := Settings.ofDocument_eq_ok h
      exact absurd (hiff.mp ⟨_, hassigned⟩) hnot
  refine ⟨hiff, hgrouped, fun bpm step s h => ?_, hrefused, fun l l' hl hname =>
    hrefused (not_assignable_of_twice hl hname)⟩
  obtain ⟨_, _, hassigned, _⟩ := Settings.ofDocument_eq_ok h
  exact ⟨hiff.mp ⟨_, hassigned⟩, hgrouped _ hassigned⟩

/-- Roles under a text and under a number of the same name are one, with their parts in the order of
the document. -/
def interleaved : List (Value × Value) :=
  [(.text "1", .map [(.text "P1", .int 1), (.int 7, .int 5)]), (.text "S", .map [(.null, .int 2)]),
    (.int 1, .map [(.text "P2", .int 3)])]

theorem assignable_iff_and_grouped_interleaved :
    Value.field? "roles" [(.text "roles", .map interleaved)] = some (.map interleaved) ∧
      (∀ l ∈ listed interleaved, l.Writable) ∧ Assignable interleaved ∧
      ∃ m, assignments [(.text "roles", .map interleaved)] = .ok m ∧
        (Settings.rolesOf m.entries).map Role.name = ["1", "S"] ∧
        Grouped (listed interleaved) (Settings.rolesOf m.entries) := by
  have hroles : Value.field? "roles" [(.text "roles", .map interleaved)] =
    some (.map interleaved) := rfl
  have hshort : ∀ l ∈ listed interleaved, l.part.isTooLong = false ∧ l.role.isTooLong = false := by
    decide +kernel
  have hwritable : ∀ l ∈ listed interleaved, l.Writable := fun l hl =>
    ⟨(hshort l hl).1, (hshort l hl).2⟩
  obtain ⟨hiff, hgrouped, -⟩ := assignable_iff_and_grouped hroles hwritable
  have hok : (assignments [(.text "roles", .map interleaved)]).isOk = true := by decide +kernel
  obtain ⟨m, hm⟩ : ∃ m, assignments [(.text "roles", .map interleaved)] = .ok m := by
    cases h : assignments [(.text "roles", .map interleaved)] with
    | error fault =>
      rw [h] at hok
      cases hok
    | ok m => exact ⟨m, rfl⟩
  have hall := hgrouped m hm
  exact ⟨hroles, hwritable, hiff.mp ⟨m, hm⟩, m, hm, hall.names.trans (by decide), hall⟩

end Parameters
end Bellows
