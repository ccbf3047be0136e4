import Synopsis.Proofs.Span.Tree

/-!
# Span trees that mirror a host tree

A span tree mirrors a host tree when it has the same nodes in the same places; its modifications do
not matter. Building succeeds exactly when no children are withheld, and gives the unmodified tree that
mirrors the host; visiting keeps it so. Modifying a tree by a rule changes the modification of each
span to the one that the rule chooses, and nothing else.
-/

namespace Synopsis

namespace Host

mutual

/-- Whether the host lists the children of every node of a tree. -/
def Listed : Host → Prop
  | .node _ _ _ withheld offspring => withheld = none ∧ ListedAll offspring

/-- Whether the host lists the children of every node of a list of trees. -/
def ListedAll : List Host → Prop
  | [] => True
  | host :: hosts => host.Listed ∧ ListedAll hosts

end

end Host

namespace SpanTree

mutual

/-- Whether a span tree has the nodes of a host tree. -/
def Mirrors : SpanTree → Host → Prop
  | .span node _ children, host => node = host ∧ MirrorsAll children host.offspring

/-- Whether a list of span trees has the nodes of a list of host trees. -/
def MirrorsAll : List SpanTree → List Host → Prop
  | [], [] => True
  | tree :: trees, host :: hosts => tree.Mirrors host ∧ MirrorsAll trees hosts
  | _, _ => False

end

/-- A mirrored span has the range of its node. -/
theorem Mirrors.range_eq {tree : SpanTree} {host : Host} (h : tree.Mirrors host) :
    tree.range = host.range := by
  cases tree with
  | span node modification children =>
    rw [Mirrors] at h
    exact congrArg Host.range h.1

mutual

/-- The span tree of a host tree with nothing modified, whether or not the host lists all children. -/
def ofHost : Host → SpanTree
  | .node tag range text withheld offspring =>
    .span (.node tag range text withheld offspring) .keep (ofHosts offspring)

/-- The span trees of a list of host trees with nothing modified. -/
def ofHosts : List Host → List SpanTree
  | [] => []
  | host :: hosts => ofHost host :: ofHosts hosts

end

mutual

/-- Building succeeds exactly when the host lists the children of every node, and it modifies
nothing. -/
theorem build_eq_ok_iff (host : Host) (tree : SpanTree) :
    build host = .ok tree ↔ host.Listed ∧ tree = ofHost host := by
  cases host with
  | node tag range text withheld offspring =>
    cases withheld with
    | some refusal => simp [build, Host.Listed]
    | none =>
      rw [build, Host.Listed, ofHost]
      cases hchildren : buildAll offspring with
      | error refusal =>
        have hlisted : ¬ Host.ListedAll offspring := by
          intro hlisted
          have hok := (buildAll_eq_ok_iff offspring (ofHosts offspring)).mpr ⟨hlisted, rfl⟩
          rw [hchildren] at hok
          contradiction
        simp [bind, Except.bind, hlisted]
      | ok children =>
        obtain ⟨hlisted, rfl⟩ := (buildAll_eq_ok_iff offspring children).mp hchildren
        simp only [bind, Except.bind, pure, Except.pure, Except.ok.injEq, hlisted, and_self, true_and]
        exact eq_comm

/-- Building a list succeeds exactly when the host lists the children of every node in it. -/
theorem buildAll_eq_ok_iff (hosts : List Host) (trees : List SpanTree) :
    buildAll hosts = .ok trees ↔ Host.ListedAll hosts ∧ trees = ofHosts hosts := by
  cases hosts with
  | nil => simp [buildAll, Host.ListedAll, ofHosts, eq_comm]
  | cons host hosts =>
    have hfirst := build_eq_ok_iff host (ofHost host)
    have hrest := buildAll_eq_ok_iff hosts (ofHosts hosts)
    rw [buildAll, Host.ListedAll, ofHosts]
    cases hbuild : build host with
    | error refusal =>
      have hlisted : ¬ host.Listed := fun h => by simp [hbuild, h] at hfirst
      simp [bind, Except.bind, hlisted]
    | ok first =>
      obtain ⟨hlisted, rfl⟩ := (build_eq_ok_iff host first).mp hbuild
      cases hbuildAll : buildAll hosts with
      | error refusal =>
        have hlistedRest : ¬ Host.ListedAll hosts := fun h => by simp [hbuildAll, h] at hrest
        simp [bind, Except.bind, hlistedRest]
      | ok rest =>
        obtain ⟨hlistedRest, rfl⟩ := (buildAll_eq_ok_iff hosts rest).mp hbuildAll
        simp [bind, Except.bind, pure, Except.pure, hlisted, hlistedRest, eq_comm]

end

mutual

/-- The unmodified span tree of a host mirrors it. -/
theorem mirrors_ofHost (host : Host) : (ofHost host).Mirrors host := by
  cases host with
  | node tag range text withheld offspring =>
    rw [ofHost, Mirrors]
    exact ⟨rfl, mirrorsAll_ofHosts offspring⟩

/-- The unmodified span trees of hosts mirror them. -/
theorem mirrorsAll_ofHosts (hosts : List Host) : MirrorsAll (ofHosts hosts) hosts := by
  cases hosts with
  | nil => trivial
  | cons host hosts => exact ⟨mirrors_ofHost host, mirrorsAll_ofHosts hosts⟩

end

/-- A built tree stands for its host. -/
theorem node_ofHost (host : Host) : (ofHost host).node = host := by
  cases host with
  | node tag range text withheld offspring =>
    rw [ofHost]
    rfl

/-- Each of the trees built from listed hosts is built from one. -/
theorem exists_of_mem_ofHosts {hosts : List Host} (hlisted : Host.ListedAll hosts) {tree : SpanTree}
    (h : tree ∈ ofHosts hosts) : ∃ host : Host, host.Listed ∧ tree = ofHost host := by
  induction hosts with
  | nil => contradiction
  | cons host hosts ih =>
    rw [ofHosts, List.mem_cons] at h
    obtain rfl | h := h
    · exact ⟨host, hlisted.1, rfl⟩
    · exact ih hlisted.2 h

section Visiting

variable {σ : Type} (visitor : σ → Span → σ × Modification)

mutual

/-- Visiting a tree leaves its nodes in their places. -/
theorem mirrors_visitFrom (tree : SpanTree) (host : Host) (id : Nat) (parent : Option Nat) (state : σ)
    (h : tree.Mirrors host) : (visitFrom visitor id parent state tree).2.Mirrors host := by
  cases tree with
  | span node modification children =>
    rw [Mirrors] at h
    obtain ⟨rfl, hchildren⟩ := h
    exact ⟨rfl, mirrorsAll_visitFromAll children node.offspring (id + 1) id _ hchildren⟩

/-- Visiting trees leaves their nodes in their places. -/
theorem mirrorsAll_visitFromAll (trees : List SpanTree) (hosts : List Host) (next parent : Nat)
    (state : σ) (h : MirrorsAll trees hosts) :
    MirrorsAll (visitFromAll visitor next parent state trees).2 hosts := by
  cases trees with
  | nil => exact h
  | cons tree trees =>
    cases hosts with
    | nil => exact h.elim
    | cons host hosts =>
      obtain ⟨hfirst, hrest⟩ := h
      exact ⟨mirrors_visitFrom tree host next (some parent) state hfirst,
        mirrorsAll_visitFromAll trees hosts _ parent _ hrest⟩

end

mutual

/-- Visiting a tree keeps its number of spans. -/
theorem size_visitFrom (tree : SpanTree) (id : Nat) (parent : Option Nat) (state : σ) :
    (visitFrom visitor id parent state tree).2.size = tree.size := by
  cases tree with
  | span node modification children =>
    simp only [visitFrom, size, sizeAll_visitFromAll children]

/-- Visiting trees keeps their number of spans. -/
theorem sizeAll_visitFromAll (trees : List SpanTree) (next parent : Nat) (state : σ) :
    sizeAll (visitFromAll visitor next parent state trees).2 = sizeAll trees := by
  cases trees with
  | nil => rfl
  | cons tree trees =>
    simp only [visitFromAll, sizeAll, size_visitFrom tree, sizeAll_visitFromAll trees]

end

/-- Visiting trees keeps the numbers of their roots. -/
theorem rootIds_visitFromAll (trees : List SpanTree) (first next parent : Nat) (state : σ) :
    rootIds first (visitFromAll visitor next parent state trees).2 = rootIds first trees := by
  induction trees generalizing first next state with
  | nil => rfl
  | cons tree trees ih => simp only [visitFromAll, rootIds, size_visitFrom, ih]

end Visiting

section Modifying

variable (rule : Span → Modification)

mutual

/-- The spans of a modified tree, its root having number `id`. -/
theorem spansFrom_modify (tree : SpanTree) (id : Nat) (parent : Option Nat) :
    (visitFrom (fun _ span => ((), rule span)) id parent () tree).2.spansFrom id parent =
      (tree.spansFrom id parent).map fun span => { span with modification := rule span } := by
  cases tree with
  | span node modification children =>
    simp only [visitFrom, spansFrom, List.map_cons, rootIds_visitFromAll,
      spansFromAll_modify children (id + 1) id]

/-- The spans of modified trees below one parent. -/
theorem spansFromAll_modify (trees : List SpanTree) (next parent : Nat) :
    spansFromAll next parent
        (visitFromAll (fun _ span => ((), rule span)) next parent () trees).2 =
      (spansFromAll next parent trees).map fun span => { span with modification := rule span } := by
  cases trees with
  | nil => rfl
  | cons tree trees =>
    simp only [visitFromAll, spansFromAll, List.map_append, size_visitFrom,
      spansFrom_modify tree next (some parent), spansFromAll_modify trees (next + tree.size) parent]

end

/-- A modified tree has the same spans, each with the modification that the rule chooses for it. -/
theorem spans_modify (tree : SpanTree) :
    (tree.modify rule).spans =
      tree.spans.map fun span => { span with modification := rule span } :=
  spansFrom_modify rule tree 0 none

/-- A modified tree mirrors the host that the tree mirrors. -/
theorem mirrors_modify (tree : SpanTree) (host : Host) (h : tree.Mirrors host) :
    (tree.modify rule).Mirrors host :=
  mirrors_visitFrom _ tree host 0 none () h

end Modifying

end SpanTree

end Synopsis
