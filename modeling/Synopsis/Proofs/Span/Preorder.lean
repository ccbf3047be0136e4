import Synopsis.Proofs.Numbering
import Synopsis.Proofs.Host.Reach
import Synopsis.Proofs.Span.Arena

/-!
# Building enumerates the host

Building follows the depth-first walk over a host tree. It stops at the first node whose children are
withheld and passes on that node's refusal. If it meets none, the table holds the nodes of the walk in
order, each at the number of spans that were there before it, with its range, linked as the host lists
them and unmodified, and going through the table hands a visitor the nodes in the same order. What the
table holds is what the nested tree of the host numbers.
-/

namespace Synopsis

namespace SpanTree

section Refusing

mutual

/-- Building fails with the first refusal that the walk over the host meets. -/
theorem build_eq_error_iff (host : Host) (refusal : Refusal) :
    build host = .error refusal ↔
      host.places.findSome? (fun place => place.2.refusal?) = some refusal := by
  cases host with
  | node tag range text withheld offspring =>
    cases withheld with
    | some found => simp [build, Host.places, Host.refusal?, Host.children]
    | none =>
      have hlisted : Host.refusal? (.node tag range text none offspring) = none := rfl
      rw [build, Host.places, List.findSome?_cons, hlisted,
        ← buildAll_eq_error_iff offspring 0 refusal]
      cases buildAll offspring <;> simp [bind, Except.bind, pure, Except.pure]

/-- Building a list fails with the first refusal that the walk over the hosts meets. -/
theorem buildAll_eq_error_iff (hosts : List Host) (first : Nat) (refusal : Refusal) :
    buildAll hosts = .error refusal ↔
      (Host.placesFrom first hosts).findSome? (fun place => place.2.refusal?) = some refusal := by
  cases hosts with
  | nil => simp [buildAll, Host.placesFrom]
  | cons host hosts =>
    have hhere (found : Refusal) := build_eq_error_iff host found
    have hbehind := buildAll_eq_error_iff hosts (first + 1) refusal
    rw [buildAll, Host.placesFrom, List.findSome?_append, List.findSome?_map]
    simp only [Function.comp_def]
    cases hbuild : build host with
    | error found =>
      rw [(hhere found).mp hbuild]
      simp [bind, Except.bind]
    | ok tree =>
      have hnone : host.places.findSome? (fun place => place.2.refusal?) = none := by
        refine Option.eq_none_iff_forall_ne_some.mpr fun found hfound => ?_
        rw [(hhere found).mpr hfound] at hbuild
        contradiction
      rw [hnone, Option.none_or, ← hbehind]
      cases buildAll hosts <;> simp [bind, Except.bind, pure, Except.pure]

end

/-- Building fails exactly when a node within reach withholds its children. -/
theorem exists_build_eq_error_iff (host : Host) :
    (∃ refusal, build host = .error refusal) ↔
      ∃ path node refusal, host.reach? path = some node ∧ node.children = .error refusal := by
  constructor
  · rintro ⟨refusal, hbuild⟩
    obtain ⟨⟨path, node⟩, hmem, hrefusal⟩ :=
      List.exists_of_findSome?_eq_some ((build_eq_error_iff host refusal).mp hbuild)
    exact ⟨path, node, refusal, (host.mem_places_iff path node).mp hmem,
      (node.refusal?_eq_some_iff refusal).mp hrefusal⟩
  · rintro ⟨path, node, refusal, hreach, hchildren⟩
    have hsome : (host.places.findSome? fun place => place.2.refusal?).isSome := by
      rw [List.findSome?_isSome_iff]
      refine ⟨(path, node), (host.mem_places_iff path node).mpr hreach, ?_⟩
      rw [(node.refusal?_eq_some_iff refusal).mpr hchildren]
      rfl
    obtain ⟨found, hfound⟩ := Option.isSome_iff_exists.mp hsome
    exact ⟨found, (build_eq_error_iff host found).mpr hfound⟩

/-- The refusal is that of the node that comes first in the order of paths. -/
theorem build_eq_error_iff_first (host : Host) (refusal : Refusal) :
    build host = .error refusal ↔
      ∃ path node, host.reach? path = some node ∧ node.children = .error refusal ∧
        ∀ earlier < path, ∀ other, host.reach? earlier = some other →
          ∃ listed, other.children = .ok listed := by
  rw [build_eq_error_iff, List.findSome?_eq_some_iff]
  constructor
  · rintro ⟨before, ⟨path, node⟩, after, hplaces, hrefusal, hnone⟩
    have hmem : (path, node) ∈ host.places := by simp [hplaces]
    refine ⟨path, node, (host.mem_places_iff path node).mp hmem,
      (node.refusal?_eq_some_iff refusal).mp hrefusal, ?_⟩
    intro earlier hlt other hreach
    have hbefore := (Host.mem_before_iff hplaces earlier other).mpr ⟨hlt, hreach⟩
    exact other.refusal?_eq_none_iff.mp (hnone _ hbefore)
  · rintro ⟨path, node, hreach, hchildren, hfirst⟩
    obtain ⟨before, after, hplaces⟩ :=
      List.append_of_mem ((host.mem_places_iff path node).mpr hreach)
    refine ⟨before, (path, node), after, hplaces,
      (node.refusal?_eq_some_iff refusal).mpr hchildren, ?_⟩
    rintro ⟨earlier, other⟩ hbefore
    obtain ⟨hlt, hreach⟩ := (Host.mem_before_iff hplaces earlier other).mp hbefore
    exact other.refusal?_eq_none_iff.mpr (hfirst earlier hlt other hreach)

end Refusing

section Building

mutual

/-- A built tree has one span for each node of the host. -/
theorem size_ofHost (host : Host) : (ofHost host).size = host.size := by
  cases host with
  | node tag range text withheld offspring =>
    rw [ofHost, size, Host.size, sizeAll_ofHosts offspring]

/-- Built trees have one span for each node of the hosts. -/
theorem sizeAll_ofHosts (hosts : List Host) : sizeAll (ofHosts hosts) = Host.sizeAll hosts := by
  cases hosts with
  | nil => rfl
  | cons host hosts =>
    rw [ofHosts, sizeAll, Host.sizeAll, size_ofHost host, sizeAll_ofHosts hosts]

end

/-- The roots of built trees begin blocks of the hosts' sizes. -/
theorem rootIds_ofHosts (hosts : List Host) (first : Nat) :
    rootIds first (ofHosts hosts) = blockStarts first (hosts.map Host.size) := by
  induction hosts generalizing first with
  | nil => rfl
  | cons host hosts ih => rw [ofHosts, rootIds, List.map_cons, blockStarts_cons, size_ofHost, ih]

mutual

/-- The spans of a built tree are the nodes of the walk over its host. -/
theorem map_node_spansFrom (host : Host) (hlisted : host.Listed) (id : Nat) (parent : Option Nat) :
    ((ofHost host).spansFrom id parent).map (·.node) = host.places.map (·.2) := by
  cases host with
  | node tag range text withheld offspring =>
    rw [Host.Listed] at hlisted
    obtain ⟨rfl, hoffspring⟩ := hlisted
    rw [ofHost, spansFrom, Host.places, List.map_cons, List.map_cons,
      map_node_spansFromAll offspring hoffspring 0]

/-- The spans of built trees are the nodes of the walk over their hosts. -/
theorem map_node_spansFromAll (hosts : List Host) (hlisted : Host.ListedAll hosts)
    (first next parent : Nat) :
    (spansFromAll next parent (ofHosts hosts)).map (·.node) =
      (Host.placesFrom first hosts).map (·.2) := by
  cases hosts with
  | nil => rfl
  | cons host hosts =>
    rw [ofHosts, spansFromAll, Host.placesFrom, List.map_append, List.map_append, List.map_map,
      map_node_spansFrom host hlisted.1, map_node_spansFromAll hosts hlisted.2 (first + 1)]
    rfl

end

mutual

/-- A built tree is unmodified, and its spans have the ranges of their nodes and number the children that the
host lists. -/
theorem fresh_of_mem_spansFrom (host : Host) (hlisted : host.Listed) (id : Nat) (parent : Option Nat)
    (span : Span) (h : span ∈ (ofHost host).spansFrom id parent) :
    span.modification = .keep ∧ span.range = span.node.range ∧
      ∃ listed, span.node.children = .ok listed ∧
        span.children = blockStarts (span.id + 1) (listed.map Host.size) := by
  cases host with
  | node tag range text withheld offspring =>
    rw [Host.Listed] at hlisted
    obtain ⟨rfl, hoffspring⟩ := hlisted
    rw [ofHost, spansFrom, List.mem_cons] at h
    obtain rfl | h := h
    · exact ⟨rfl, rfl, offspring, rfl, rootIds_ofHosts offspring (id + 1)⟩
    · exact fresh_of_mem_spansFromAll offspring hoffspring (id + 1) id span h

/-- Built trees are unmodified, and their spans have the ranges of their nodes and number the children that the
hosts list. -/
theorem fresh_of_mem_spansFromAll (hosts : List Host) (hlisted : Host.ListedAll hosts)
    (next parent : Nat) (span : Span) (h : span ∈ spansFromAll next parent (ofHosts hosts)) :
    span.modification = .keep ∧ span.range = span.node.range ∧
      ∃ listed, span.node.children = .ok listed ∧
        span.children = blockStarts (span.id + 1) (listed.map Host.size) := by
  cases hosts with
  | nil => contradiction
  | cons host hosts =>
    rw [ofHosts, spansFromAll, List.mem_append] at h
    obtain h | h := h
    · exact fresh_of_mem_spansFrom host hlisted.1 next (some parent) span h
    · exact fresh_of_mem_spansFromAll hosts hlisted.2 _ parent span h

end

end Building

end SpanTree

/-- A visitor that also writes down each span it is handed. -/
def Span.recorded {σ : Type} (visitor : σ → Span → σ × Modification) (state : σ × List Span)
    (span : Span) : (σ × List Span) × Modification :=
  let visited := visitor state.1 span
  ((visited.1, state.2 ++ [span]), visited.2)

namespace SpanArena

/-- A record changes nothing else, and it is the list of spans that the visitor is handed. -/
theorem visitEach_recorded {σ : Type} (visitor : σ → Span → σ × Modification) (spans seen : List Span)
    (state : σ) :
    visitEach (Span.recorded visitor) (state, seen) spans =
      (((visitEach visitor state spans).1, seen ++ spans), (visitEach visitor state spans).2) := by
  induction spans generalizing state seen with
  | nil => simp only [visitEach, List.append_nil]
  | cons span spans ih =>
    simp only [visitEach, Span.recorded, ih, List.append_assoc, List.singleton_append]

/-- A record of a whole arena is the list of its spans. -/
theorem forEach_recorded {σ : Type} (visitor : σ → Span → σ × Modification) (state : σ)
    (arena : SpanArena) :
    arena.forEach (Span.recorded visitor) (state, []) =
      (((arena.forEach visitor state).1, arena.spans.toList), (arena.forEach visitor state).2) := by
  have hrecorded := visitEach_recorded visitor arena.spans.toList [] state
  refine Prod.ext ?_ (SpanArena.ext ?_)
  · exact congrArg (·.1) hrecorded
  · exact congrArg (·.2.toArray) hrecorded

/-- Whether the spans of an arena are the nodes of a host in pre-order, each once, with the numbers and
links that this order gives them and no modification. -/
structure Enumerates (arena : SpanArena) (host : Host) : Prop where
  /-- Listed by their paths in ascending order, the nodes within reach are those of the spans. -/
  preorder : ∃ places : List (List Nat × Host),
    places.Pairwise (fun before after => before.1 < after.1) ∧
      (∀ path node, (path, node) ∈ places ↔ host.reach? path = some node) ∧
      arena.spans.toList.map (·.node) = places.map (·.2)
  /-- The first span is that of the whole host. -/
  root : ∃ root, arena.spans[0]? = some root ∧ root.node = host ∧ root.parent = none
  /-- Every other span has its parent before it. -/
  above : ∀ (index : Nat) (span : Span), arena.spans[index]? = some span → index ≠ 0 →
    ∃ upper < index, span.parent = some upper
  /-- A span has the number of its place and the range of its node. -/
  stored : ∀ (index : Nat) (span : Span), arena.spans[index]? = some span →
    span.id = index ∧ span.range = span.node.range
  /-- The children that the host lists follow their parent, each behind all of the one before. -/
  children : ∀ (index : Nat) (span : Span), arena.spans[index]? = some span →
    ∃ listed, span.node.children = .ok listed ∧
      span.children = blockStarts (index + 1) (listed.map Host.size)
  /-- Children and parents name each other. -/
  linked : ∀ (upper lower : Nat) (above below : Span), arena.spans[upper]? = some above →
    arena.spans[lower]? = some below → (lower ∈ above.children ↔ below.parent = some upper)
  /-- Nothing is modified. -/
  kept : ∀ span ∈ arena.spans, span.modification = .keep
  /-- A visitor is handed the spans as they stand, each once and in order, which a record of them shows. -/
  visited : ∀ {σ : Type} (visitor : σ → Span → σ × Modification) (state : σ),
    arena.forEach (Span.recorded visitor) (state, []) =
      (((arena.forEach visitor state).1, arena.spans.toList), (arena.forEach visitor state).2)

/-- The arena of a host whose children are all listed enumerates it. -/
theorem enumerates_ofHost (host : Host) (hlisted : host.Listed) :
    (SpanTree.ofHost host).arena.Enumerates host := by
  have hspan {index : Nat} {span : Span} (h : (SpanTree.ofHost host).arena.spans[index]? = some span) :
      span ∈ (SpanTree.ofHost host).spans ∧ span.id = index := by
    change (SpanTree.ofHost host).spans.toArray[index]? = some span at h
    rw [List.getElem?_toArray] at h
    exact ⟨List.mem_of_getElem? h, SpanTree.id_of_getElem?_spans h⟩
  have hfresh {span : Span} (h : span ∈ (SpanTree.ofHost host).spans) :=
    SpanTree.fresh_of_mem_spansFrom host hlisted 0 none span h
  constructor
  case preorder =>
    exact ⟨host.places, host.pairwise_places, host.mem_places_iff,
      SpanTree.map_node_spansFrom host hlisted 0 none⟩
  case root =>
    cases host with
    | node tag range text withheld offspring =>
      change ∃ root, (SpanTree.ofHost _).spans.toArray[0]? = some root ∧ _
      rw [SpanTree.spans, SpanTree.ofHost, SpanTree.spansFrom]
      exact ⟨_, rfl, rfl, rfl⟩
  case above =>
    intro index span h hindex
    obtain ⟨hmem, rfl⟩ := hspan h
    obtain ⟨hroot, -⟩ | habove := SpanTree.parent_of_mem_spans hmem
    · contradiction
    · exact habove
  case stored =>
    intro index span h
    obtain ⟨hmem, hid⟩ := hspan h
    exact ⟨hid, (hfresh hmem).2.1⟩
  case children =>
    intro index span h
    obtain ⟨hmem, rfl⟩ := hspan h
    exact (hfresh hmem).2.2
  case linked =>
    intro upper lower above below habove hbelow
    obtain ⟨hupper, rfl⟩ := hspan habove
    obtain ⟨hlower, rfl⟩ := hspan hbelow
    exact SpanTree.mem_children_iff hupper hlower
  case kept =>
    intro span h
    exact (hfresh (Array.mem_toList_iff.mpr h)).1
  case visited =>
    intro σ visitor state
    exact forEach_recorded visitor state _

/-- The arena of a host is refused as its nested tree is. -/
theorem build_eq_error_iff (host : Host) (refusal : Refusal) :
    build host = .error refusal ↔ SpanTree.build host = .error refusal := by
  rw [build_eq]
  cases SpanTree.build host with
  | error found => simp only [Except.map, Except.error.injEq]
  | ok tree => simp only [Except.map, reduceCtorEq]

/-- Building fails exactly when a node within reach withholds its children, with the refusal of the
first such node in pre-order. Otherwise it gives an arena that enumerates the host in pre-order. -/
theorem build_enumerates_or_refuses_first (host : Host) :
    ((∃ refusal, build host = .error refusal) ↔
        ∃ path node refusal, host.reach? path = some node ∧ node.children = .error refusal) ∧
      (∀ refusal, build host = .error refusal ↔
        ∃ path node, host.reach? path = some node ∧ node.children = .error refusal ∧
          ∀ earlier < path, ∀ other, host.reach? earlier = some other →
            ∃ listed, other.children = .ok listed) ∧
      ∀ arena, build host = .ok arena → arena.Enumerates host := by
  simp only [build_eq_error_iff]
  refine ⟨SpanTree.exists_build_eq_error_iff host, SpanTree.build_eq_error_iff_first host, ?_⟩
  intro arena hbuild
  rw [build_eq] at hbuild
  cases htree : SpanTree.build host with
  | error refusal =>
    rw [htree] at hbuild
    cases hbuild
  | ok tree =>
    rw [htree] at hbuild
    cases hbuild
    obtain ⟨hlisted, rfl⟩ := (SpanTree.build_eq_ok_iff host tree).mp htree
    exact enumerates_ofHost host hlisted

/-- A node with two children, the first of which has one of its own, is enumerated. Once the last two nodes
withhold their children, it is refused as the one that comes first is. -/
theorem build_enumerates_branching :
    let host (inner last : Option Refusal) : Host := .node 0 ⟨0, 4⟩ (.ok "(a)b") none
      [.node 1 ⟨0, 3⟩ (.ok "(a)") none [.node 2 ⟨1, 2⟩ (.ok "a") inner []],
        .node 2 ⟨3, 4⟩ (.ok "b") last []]
    let withheld := host (some .childrenUnavailable) (some .noSourceMapping)
    (∃ arena, build (host none none) = .ok arena ∧ arena.Enumerates (host none none) ∧
        arena.spans.toList.map (fun span => (span.range, span.parent, span.children)) =
          [(⟨0, 4⟩, none, [1, 3]), (⟨0, 3⟩, some 0, [2]), (⟨1, 2⟩, some 1, []),
            (⟨3, 4⟩, some 0, [])]) ∧
      build withheld = .error .childrenUnavailable ∧
      ∃ path node, withheld.reach? path = some node ∧ node.children = .error .childrenUnavailable ∧
        ∀ earlier < path, ∀ other, withheld.reach? earlier = some other →
          ∃ listed, other.children = .ok listed := by
  intro host withheld
  have hbuild : build (host none none) = .ok (SpanTree.ofHost (host none none)).arena := by
    rw [build_eq]
    rfl
  have hrefused : build withheld = .error .childrenUnavailable := by
    rw [build_eq]
    rfl
  obtain ⟨-, -, henumerates⟩ := build_enumerates_or_refuses_first (host none none)
  obtain ⟨-, hfirst, -⟩ := build_enumerates_or_refuses_first withheld
  exact ⟨⟨_, hbuild, henumerates _ hbuild, rfl⟩, hrefused, (hfirst _).mp hrefused⟩

end SpanArena

end Synopsis
