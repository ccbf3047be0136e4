import Mathlib.Data.List.Basic
import Synopsis.Host

/-!
# Nodes within reach

A node is within reach of the root if it is found by listing children and choosing one of them, over
and over; the chosen indices are its path. A path stands before the paths that go on from it, and of
two paths that part the one with the smaller index comes first. This lexicographic order of paths is
the pre-order of a depth-first walk, which meets every node within reach once.
-/

namespace Synopsis.Host

/-- The node reached by a list of child indices through children that the host lists. -/
def reach? (host : Host) : List Nat → Option Host
  | [] => some host
  | index :: path =>
    host.children.toOption.bind fun listed => listed[index]?.bind fun child => child.reach? path

/-- The refusal of a node's children, if there is one. -/
def refusal? (host : Host) : Option Refusal :=
  match host.children with
  | .error refusal => some refusal
  | .ok _ => none

/-- A node has a refusal exactly when the host does not list its children. -/
theorem refusal?_eq_some_iff (host : Host) (refusal : Refusal) :
    host.refusal? = some refusal ↔ host.children = .error refusal := by
  rw [refusal?]
  cases host.children <;> simp

/-- A node has no refusal exactly when the host lists its children. -/
theorem refusal?_eq_none_iff (host : Host) :
    host.refusal? = none ↔ ∃ listed, host.children = .ok listed := by
  rw [refusal?]
  cases host.children <;> simp

mutual

/-- The nodes within reach with their paths, as a depth-first walk meets them. -/
def places : Host → List (List Nat × Host)
  | .node tag range text (some refusal) offspring =>
    [([], .node tag range text (some refusal) offspring)]
  | .node tag range text none offspring =>
    ([], .node tag range text none offspring) :: placesFrom 0 offspring

/-- The nodes within reach of consecutive children, the first of which has the given index. -/
def placesFrom (index : Nat) : List Host → List (List Nat × Host)
  | [] => []
  | host :: hosts =>
    host.places.map (fun place => (index :: place.1, place.2)) ++ placesFrom (index + 1) hosts

end

mutual

/-- The walk meets exactly the nodes within reach. -/
theorem mem_places_iff (host : Host) (path : List Nat) (node : Host) :
    (path, node) ∈ host.places ↔ host.reach? path = some node := by
  cases host with
  | node tag range text withheld offspring =>
    cases withheld with
    | some refusal =>
      cases path with
      | nil => simp [places, reach?, eq_comm]
      | cons index path => simp [places, reach?, children, Except.toOption]
    | none =>
      rw [places, List.mem_cons, mem_placesFrom_iff offspring 0 path node]
      cases path with
      | nil => simp [reach?, eq_comm]
      | cons index path => simp [reach?, children, Except.toOption]

/-- The walk over consecutive children meets exactly the nodes within reach of one of them. -/
theorem mem_placesFrom_iff (hosts : List Host) (first : Nat) (path : List Nat) (node : Host) :
    (path, node) ∈ placesFrom first hosts ↔
      ∃ index rest, path = (first + index) :: rest ∧
        (hosts[index]?.bind fun host => host.reach? rest) = some node := by
  cases hosts with
  | nil => simp [placesFrom]
  | cons host hosts =>
    have hhere (rest : List Nat) := mem_places_iff host rest node
    have hbehind := mem_placesFrom_iff hosts (first + 1) path node
    rw [placesFrom, List.mem_append, hbehind]
    constructor
    · rintro (hmem | ⟨index, rest, rfl, hreach⟩)
      · obtain ⟨⟨rest, found⟩, hplace, heq⟩ := List.mem_map.mp hmem
        obtain ⟨rfl, rfl⟩ := Prod.mk.inj heq
        exact ⟨0, rest, rfl, (mem_places_iff host rest found).mp hplace⟩
      · refine ⟨index + 1, rest, ?_, hreach⟩
        rw [Nat.add_assoc, Nat.add_comm 1]
    · rintro ⟨index, rest, rfl, hreach⟩
      cases index with
      | zero => exact Or.inl (List.mem_map.mpr ⟨(rest, node), (hhere rest).mpr hreach, rfl⟩)
      | succ index =>
        refine Or.inr ⟨index, rest, ?_, hreach⟩
        rw [Nat.add_assoc, Nat.add_comm 1]

end

mutual

/-- The walk meets the nodes in the order of their paths. -/
theorem pairwise_places (host : Host) :
    host.places.Pairwise fun before after => before.1 < after.1 := by
  cases host with
  | node tag range text withheld offspring =>
    cases withheld with
    | some refusal => exact List.pairwise_singleton _ _
    | none =>
      rw [places, List.pairwise_cons]
      refine ⟨?_, pairwise_placesFrom offspring 0⟩
      rintro ⟨path, node⟩ hmem
      obtain ⟨index, rest, rfl, -⟩ := (mem_placesFrom_iff offspring 0 path node).mp hmem
      exact List.nil_lt_cons _ _

/-- The walk over consecutive children meets the nodes in the order of their paths. -/
theorem pairwise_placesFrom (hosts : List Host) (first : Nat) :
    (placesFrom first hosts).Pairwise fun before after => before.1 < after.1 := by
  cases hosts with
  | nil => exact List.Pairwise.nil
  | cons host hosts =>
    rw [placesFrom, List.pairwise_append, List.pairwise_map]
    refine ⟨(pairwise_places host).imp fun h => List.cons_lt_cons_iff.mpr (Or.inr ⟨rfl, h⟩),
      pairwise_placesFrom hosts (first + 1), ?_⟩
    rintro before hbefore ⟨path, node⟩ hafter
    obtain ⟨place, -, rfl⟩ := List.mem_map.mp hbefore
    obtain ⟨index, rest, rfl, -⟩ := (mem_placesFrom_iff hosts (first + 1) path node).mp hafter
    exact List.cons_lt_cons_iff.mpr (Or.inl (by omega))

end

/-- The nodes that the walk meets before a place are those whose paths are smaller. -/
theorem mem_before_iff {host node : Host} {path : List Nat} {before after : List (List Nat × Host)}
    (h : host.places = before ++ (path, node) :: after) (earlier : List Nat) (other : Host) :
    (earlier, other) ∈ before ↔ earlier < path ∧ host.reach? earlier = some other := by
  have hordered := host.pairwise_places
  rw [h, List.pairwise_append, List.pairwise_cons] at hordered
  obtain ⟨-, ⟨hbehind, -⟩, hbefore⟩ := hordered
  rw [← mem_places_iff, h, List.mem_append, List.mem_cons]
  constructor
  · intro hmem
    exact ⟨hbefore _ hmem _ List.mem_cons_self, Or.inl hmem⟩
  · rintro ⟨hlt, hmem | heq | hmem⟩
    · exact hmem
    · obtain ⟨rfl, -⟩ := Prod.mk.inj heq
      exact absurd hlt (List.lt_irrefl _)
    · exact absurd hlt (List.lt_asymm (hbehind _ hmem))

mutual

/-- The number of nodes of a host tree. -/
def size : Host → Nat
  | .node _ _ _ _ offspring => sizeAll offspring + 1

/-- The number of nodes of a list of host trees. -/
def sizeAll : List Host → Nat
  | [] => 0
  | host :: hosts => host.size + sizeAll hosts

end

end Synopsis.Host
