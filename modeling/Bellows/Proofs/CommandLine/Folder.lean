import Bellows.CommandLine.Folder
import Bellows.Proofs.CommandLine.Paths

/-! What writing a text does to a folder: at one place there is another file, and everything else,
also what every other path leads to, is as it was. -/
namespace Bellows.Folder

variable {here : List String} {f g : Folder} {place : List String} {path : Path} {text : String}

/-- A folder after a text was written to a path, which leads to a place. -/
structure Written (here : List String) (f : Folder) (path : Path) (text : String)
    (place : List String) (g : Folder) : Prop where
  leads : f.placeOf here path.text = .ok place
  item_self : g.item? place = some (.file text.toUTF8.toList)
  item_other : ∀ other, other ≠ place → g.item? other = f.item? other
  entry_self : g.entry here path.text = .file text.toUTF8.toList
  entry_other : ∀ other, f.placeOf here other ≠ .ok place → g.entry here other = f.entry here other

/-- A place where a file stands or can stand: no folder and no link is there. -/
def IsFree (f : Folder) (place : List String) : Prop :=
  f.item? place ≠ some .folder ∧ ∀ target, f.item? place ≠ some (.link target)

theorem item?_put (f : Folder) (item : Item) (hplace : place ≠ []) (other : List String) :
    item? (f.put place item) other = if other = place then some item else f.item? other := by
  unfold item?
  by_cases hother : other = place
  · subst hother
    rw [if_neg (by simpa using hplace), if_pos rfl, Keyed.get?_put, if_pos rfl]
  · rw [if_neg hother, Keyed.get?_put, if_neg (Ne.symm hother)]

/-- The root is no place for a file. -/
theorem IsFree.ne_nil (h : f.IsFree place) : place ≠ [] := by
  rintro rfl
  exact h.1 rfl

section

variable {follow follow' : List String → List String → Except WriteFault (List String)}

/-- Only folders are walked through and only links are followed, so that a file that takes the place
of neither does not open or close a way. -/
theorem walkWith_put (octets : List UInt8) (h : f.IsFree place)
    (hfollow : ∀ start names,
      (follow' start names).toOption = (follow start names).toOption)
    (start names : List String) :
    (walkWith (f.put place (.file octets)) follow' start names).toOption =
      (f.walkWith follow start names).toOption := by
  have hitem := item?_put f (.file octets) h.ne_nil
  induction names generalizing start with
  | nil => rfl
  | cons name names ih =>
    unfold walkWith
    by_cases hstart : start = place
    · subst hstart
      rw [hitem, if_pos rfl]
      cases hfound : f.item? start with
      | none => rfl
      | some item =>
        cases item with
        | folder => exact (h.1 hfound).elim
        | file _ => rfl
        | link target => exact (h.2 target hfound).elim
    · rw [hitem, if_neg hstart]
      cases f.item? start with
      | none => rfl
      | some item =>
        cases item with
        | file _ => rfl
        | link _ => rfl
        | folder =>
          dsimp only
          split
          · exact ih start
          split
          · exact ih start.dropLast
          · rw [hitem]
            by_cases hnext : start ++ [name] = place
            · rw [if_pos hnext]
              dsimp only
              split
              · next target hlink => exact (h.2 target (hnext ▸ hlink)).elim
              · exact ih (start ++ [name])
            · rw [if_neg hnext]
              split
              · exact hfollow _ _
              · exact ih (start ++ [name])

end

theorem walk_put (octets : List UInt8) (h : f.IsFree place) (links : Nat)
    (start names : List String) :
    (walk (f.put place (.file octets)) links start names).toOption =
      (f.walk links start names).toOption := by
  induction links generalizing start names with
  | zero => exact walkWith_put octets h (fun _ _ => rfl) start names
  | succ links ih => exact walkWith_put octets h ih start names

theorem placeOf_put (octets : List UInt8) (h : f.IsFree place) (here : List String)
    (path : String) : (placeOf (f.put place (.file octets)) here path).toOption =
      (f.placeOf here path).toOption :=
  walk_put octets h linkLimit (start here path) (path.splitOn "/")

/-- A name that is seen from the root leads to its own place, unless a link stands there. -/
theorem placeOf_name {name : String} (hname : Path.Names name) (hup : name ≠ "..")
    (hlink : ∀ target, f.item? [name] ≠ some (.link target)) : f.placeOf [] name = .ok [name] := by
  have hwords : name.splitOn "/" = [name] := splitOn_of_not_mem hname.2.2
  have hstart : start [] name = [] := by rw [start, Path.ofText_name hname, if_pos rfl]
  have hroot : f.item? [] = some .folder := rfl
  have hproper : ¬ (name = "" || name = ".") = true := by simp [hname.1, hname.2.1]
  rw [placeOf, hstart, hwords]
  change f.walkWith _ [] [name] = _
  simp only [walkWith, hroot, if_neg hproper, if_neg hup, List.nil_append]

/-- What a path leads to depends on its place alone. -/
theorem entry_eq (f : Folder) (here : List String) (path : String) : f.entry here path =
    if path = "" then .missing
    else
      match (f.placeOf here path).toOption.map f.item? with
      | some (some .folder) => .folder
      | some (some (.file octets)) => .file octets
      | _ => .missing := by
  unfold entry
  cases f.placeOf here path with
  | error fault => rfl
  | ok place =>
    simp only [Except.map, Except.toOption, Option.map_some]
    cases f.item? place with
    | none => rfl
    | some item => cases item <;> rfl

/-- No path is written as nothing. -/
theorem text_ne_empty (path : Path) : path.text ≠ "" := by
  unfold Path.text
  dsimp only
  split
  · decide
  · next h => exact fun hempty => h (by rw [hempty]; rfl)

theorem isFree_of_write (h : f.write here path text = .ok g) : ∃ place,
    f.placeOf here path.text = .ok place ∧ f.IsFree place ∧
      g = f.put place (.file text.toUTF8.toList) := by
  unfold write at h
  split at h
  · cases h
  next place hplace =>
  split at h
  · cases h
  · cases h
  next hfolder hlink =>
  cases h
  exact ⟨place, hplace, ⟨hfolder, hlink⟩, rfl⟩

/-- A text that is written is all that is changed. -/
theorem written_of_write (h : f.write here path text = .ok g) :
    ∃ place, f.Written here path text place g := by
  obtain ⟨place, hplace, hfree, rfl⟩ := isFree_of_write h
  have hitem := item?_put f (.file text.toUTF8.toList) hfree.ne_nil
  have hleads := placeOf_put text.toUTF8.toList hfree here
  have hself : item? (f.put place (.file text.toUTF8.toList)) place =
      some (.file text.toUTF8.toList) := by rw [hitem, if_pos rfl]
  refine ⟨place, hplace, hself, fun other hne => by rw [hitem, if_neg hne], ?_, ?_⟩
  · rw [entry_eq, if_neg (text_ne_empty path), hleads, hplace, Except.toOption, Option.map_some,
      hself]
  · intro other hother
    rw [entry_eq, entry_eq, hleads]
    cases hplaceOf : f.placeOf here other with
    | error fault => rfl
    | ok p =>
      have hne : p ≠ place := fun hp => hother (by rw [hplaceOf, hp])
      rw [Except.toOption, Option.map_some, Option.map_some, hitem, if_neg hne]

end Bellows.Folder
