import Synopsis.Proofs.Path
import Synopsis.Settings.Discovery

/-!
# The nearest settings file

The search for settings asks in a directory, then in the one above it, and so on. It stops at the first place
where there is anything, and when it has asked once for every component of the path and once more, it stops in
any case. So it takes a settings file exactly when there is none nearer, and it ends without one exactly when
there is none at all.
-/

namespace Synopsis.Settings

/-- Ask whether there is anything at a path, and count the question. -/
def counted (present : Path → Bool) (path : Path) : StateM Nat Bool := do
  modify (· + 1)
  return present path

/-- What the search for settings comes to, and after how many questions. -/
def search (present : Path → Bool) (start : Path) : Option Path × Nat :=
  (find? (counted present) start).run 0

/-- Whether a settings file stands in the directory reached by going up a number of times, and in none of
those that are nearer. -/
structure IsNearest (present : Path → Bool) (start : Path) (count : Nat) (found : Path) : Prop where
  place : ∃ directory, start.climb count = some directory ∧ found = directory.join fileName
  filled : present found = true
  first : ∀ nearer < count, ∀ directory, start.climb nearer = some directory →
    present (directory.join fileName) = false

section Rounds

variable (present : Path → Bool)

/-- A place where there is anything ends the search, and from any other it goes on. -/
theorem run_findM?_counted_cons (place : Path) (rest : List Path) (asked : Nat) :
    ((place :: rest).findM? (counted present)).run asked =
      if present place = true then (some place, asked + 1)
      else (rest.findM? (counted present)).run (asked + 1) := by
  have hask : (counted present place).run asked = (present place, asked + 1) := rfl
  rw [List.findM?, StateT.run_bind, hask]
  cases present place <;> rfl

/-- A place is found after one question for each place before it and one for itself. -/
theorem run_findM?_counted_eq_some_iff (places : List Path) (asked rounds : Nat) (found : Path) :
    (places.findM? (counted present)).run asked = (some found, rounds) ↔
      ∃ index, rounds = asked + index + 1 ∧ places[index]? = some found ∧ present found = true ∧
        ∀ earlier < index, ∀ place, places[earlier]? = some place → present place = false := by
  induction places generalizing asked with
  | nil =>
    change ((none, asked) : Option Path × Nat) = (some found, rounds) ↔ _
    simp
  | cons place rest ih =>
    rw [run_findM?_counted_cons]
    cases hplace : present place with
    | true =>
      rw [if_pos rfl, Prod.mk.injEq, Option.some.injEq]
      constructor
      · rintro ⟨rfl, rfl⟩
        exact ⟨0, rfl, rfl, hplace, fun earlier hearlier => absurd hearlier (Nat.not_lt_zero _)⟩
      · rintro ⟨index, rfl, hfound, -, hfirst⟩
        cases index with
        | zero => exact ⟨Option.some.inj hfound, rfl⟩
        | succ index => simp [hfirst 0 (Nat.succ_pos index) place rfl] at hplace
    | false =>
      rw [if_neg Bool.false_ne_true, ih]
      constructor
      · rintro ⟨index, rfl, hfound, hthere, hfirst⟩
        refine ⟨index + 1, by omega, hfound, hthere, fun earlier hearlier other hother => ?_⟩
        cases earlier with
        | zero =>
          obtain rfl := Option.some.inj hother
          exact hplace
        | succ earlier => exact hfirst earlier (Nat.lt_of_succ_lt_succ hearlier) other hother
      · rintro ⟨index, rfl, hfound, hthere, hfirst⟩
        cases index with
        | zero =>
          obtain rfl := Option.some.inj hfound
          simp [hplace] at hthere
        | succ index =>
          exact ⟨index, by omega, hfound, hthere, fun earlier hearlier other hother =>
            hfirst (earlier + 1) (Nat.succ_lt_succ hearlier) other hother⟩

/-- The search ends without a place after one question for each of them, none of which has anything. -/
theorem run_findM?_counted_eq_none_iff (places : List Path) (asked rounds : Nat) :
    (places.findM? (counted present)).run asked = (none, rounds) ↔
      rounds = asked + places.length ∧ ∀ place ∈ places, present place = false := by
  induction places generalizing asked with
  | nil =>
    constructor
    · intro h
      exact ⟨(Prod.mk.inj h).2.symm, by simp⟩
    · rintro ⟨rfl, -⟩
      rfl
  | cons place rest ih =>
    rw [run_findM?_counted_cons, List.forall_mem_cons, List.length_cons]
    cases hplace : present place with
    | true =>
      rw [if_pos rfl]
      exact ⟨fun h => absurd (Prod.mk.inj h).1 (Option.some_ne_none place), fun h => by simp at h⟩
    | false =>
      rw [if_neg Bool.false_ne_true, ih]
      simp only [true_and, Nat.add_assoc, Nat.add_comm 1]

end Rounds

/-- A search on a disk finds what is there and leaves the disk as it is. -/
theorem run_findM?_access (disk : Disk) (places : List Path) (asked : Nat) :
    (places.findM? Disk.access.isPresent).run disk =
      (((places.findM? (counted disk.isPresent)).run asked).1, disk) := by
  induction places generalizing asked with
  | nil => rfl
  | cons place rest ih =>
    have hask : (Disk.access.isPresent place).run disk = (disk.isPresent place, disk) := rfl
    rw [run_findM?_counted_cons, List.findM?, StateT.run_bind, hask]
    cases disk.isPresent place with
    | true => rfl
    | false => exact ih (asked + 1)

/-- The places to ask at are those in the directories above the start. -/
theorem getElem?_candidates_eq_some_iff (start place : Path) (count : Nat) :
    (candidates start)[count]? = some place ↔
      ∃ directory, start.climb count = some directory ∧ place = directory.join fileName := by
  rw [candidates, List.getElem?_map, Path.getElem?_ancestors, Option.map_eq_some_iff]
  simp only [eq_comm]

section Search

variable (present : Path → Bool) (start : Path)

/-- A settings file is found exactly when it is the nearest one, after as many questions as there are
directories up to its own. -/
theorem search_eq_some_iff (found : Path) (rounds : Nat) :
    search present start = (some found, rounds) ↔
      ∃ count, rounds = count + 1 ∧ IsNearest present start count found := by
  rw [search, find?, run_findM?_counted_eq_some_iff]
  refine exists_congr fun count => ?_
  rw [Nat.zero_add, getElem?_candidates_eq_some_iff]
  refine and_congr_right fun _ => ⟨?_, fun h => ⟨h.place, h.filled, fun nearer hnearer place hplace => ?_⟩⟩
  · rintro ⟨hplace, hfilled, hfirst⟩
    refine ⟨hplace, hfilled, fun nearer hnearer directory hdirectory => ?_⟩
    exact hfirst nearer hnearer _
      ((getElem?_candidates_eq_some_iff start _ nearer).mpr ⟨directory, hdirectory, rfl⟩)
  · obtain ⟨directory, hdirectory, rfl⟩ := (getElem?_candidates_eq_some_iff start _ nearer).mp hplace
    exact h.first nearer hnearer directory hdirectory

/-- The search ends without a settings file exactly when there is none in any directory above the start, after
a question in each. -/
theorem search_eq_none_iff (rounds : Nat) :
    search present start = (none, rounds) ↔
      rounds = start.components.length + 1 ∧ ∀ count directory,
        start.climb count = some directory → present (directory.join fileName) = false := by
  have hlength : (candidates start).length = start.components.length + 1 := by
    rw [candidates, List.length_map, Path.length_ancestors]
  rw [search, find?, run_findM?_counted_eq_none_iff, Nat.zero_add, hlength]
  refine and_congr_right fun _ => ⟨fun h count directory hdirectory => ?_, fun h place hplace => ?_⟩
  · have hplace := (getElem?_candidates_eq_some_iff start _ count).mpr ⟨directory, hdirectory, rfl⟩
    exact h _ (List.mem_of_getElem? hplace)
  · obtain ⟨count, hcount⟩ := List.mem_iff_getElem?.mp hplace
    obtain ⟨directory, hdirectory, rfl⟩ := (getElem?_candidates_eq_some_iff start _ count).mp hcount
    exact h count directory hdirectory

end Search

/-- Going up from a start ends after as many steps as it has components, each step drops the last of them, and
where the start is given by a text it takes away the end of that, a character at least. A settings file is
found exactly when it is the nearest one, after a question in its directory and one in each that is nearer; the
search ends without one exactly when there is none in any directory, after a question in each. On a disk it
finds the same and changes nothing. -/
theorem nearest_settings_found (present : Path → Bool) (start : Path) :
    (∀ count, (∃ up, start.climb count = some up) ↔ count ≤ start.components.length) ∧
      (∀ count up, start.climb count = some up →
        (∃ dropped, dropped.length = count ∧ start.components = up.components ++ dropped) ∧
        ∀ text, start = Path.ofString text →
          ∃ tail : String, count ≤ tail.length ∧ text = toString up ++ tail) ∧
      (∀ found rounds, search present start = (some found, rounds) ↔
        ∃ count, rounds = count + 1 ∧ IsNearest present start count found) ∧
      (∀ rounds, search present start = (none, rounds) ↔
        rounds = start.components.length + 1 ∧ ∀ count directory,
          start.climb count = some directory → present (directory.join fileName) = false) ∧
      ∀ disk : Disk, (find? Disk.access.isPresent start).run disk =
        ((search disk.isPresent start).1, disk) := by
  refine ⟨start.exists_climb_iff, fun count up hup => ⟨Path.exists_dropped_of_climb hup, ?_⟩,
    search_eq_some_iff present start, search_eq_none_iff present start,
    fun disk => run_findM?_access disk _ 0⟩
  rintro text rfl
  obtain ⟨-, tail, hcount, htext⟩ := Path.toString_of_climb (Path.proper_ofString text) hup
  exact ⟨tail, hcount, by rwa [Path.toString_ofString] at htext⟩

/-- From a start with idle pieces in it, the nearer of two settings files is found one step up. -/
theorem nearest_settings_found_behind_idle :
    let start := Path.ofString "./a//b/."
    let found := Path.ofString "./a/spanfmt.toml"
    let present (path : Path) : Bool := path ∈ [found, Path.ofString "./spanfmt.toml"]
    start.components = [".", "a", "b"] ∧ start.climb 1 = some (Path.ofString "./a") ∧
      IsNearest present start 1 found ∧ search present start = (some found, 2) := by
  intro start found present
  obtain ⟨-, -, hfound, -⟩ := nearest_settings_found present start
  have hup : start.climb 1 = some (Path.ofString "./a") := by decide +kernel
  have hnearest : IsNearest present start 1 found := by
    refine ⟨⟨_, hup, by decide +kernel⟩, by decide +kernel, fun nearer hnearer directory hdirectory => ?_⟩
    obtain rfl := Nat.lt_one_iff.mp hnearer
    rw [← Option.some.inj hdirectory]
    decide +kernel
  exact ⟨by decide +kernel, hup, hnearest, (hfound found 2).mpr ⟨1, rfl, hnearest⟩⟩

end Synopsis.Settings
