import Synopsis.Span
import Synopsis.Text.Words

/-!
# Span arenas

The spans of a host tree stand in one table. A node is pushed behind the spans that are there already and
its number is how many they were; its children are pushed one after the other, and each child is entered
in the list of its parent once it and everything below it are there. Visiting goes through the table from
front to back. Text is written from the root along the lists of children. No list leads back in the table,
so writing ends.
-/

namespace Synopsis

/-- Whether each child that a span of a table lists stands behind the span in the table. -/
def Span.Forward (spans : Array Span) : Prop :=
  ∀ id span, spans[id]? = some span → ∀ child ∈ span.children, id < child ∧ child < spans.size

/-- A table of spans that begins with a root and in which no child stands before its parent. -/
@[ext]
structure SpanArena where
  spans : Array Span
  rooted : 0 < spans.size
  forward : Span.Forward spans

namespace SpanArena

/-- The table with the unmodified span of a node at its end. Its children are not entered yet. -/
def add (spans : Array Span) (node : Host) (parent : Option Nat) : Array Span :=
  spans.push
    { id := spans.size, node, range := node.range, parent, children := [], modification := .keep }

/-- The table with one more child in the list of a span. -/
def enter (spans : Array Span) (id child : Nat) : Array Span :=
  spans.modify id fun span => { span with children := span.children ++ [child] }

mutual

/-- Push a node and everything below it. The answer is the number of the node and the table after it. The
children of a node are asked for before the node is pushed. -/
def push (spans : Array Span) (parent : Option Nat) : Host → Except Refusal (Nat × Array Span)
  | .node _ _ _ (some refusal) _ => .error refusal
  | .node tag range text none offspring => do
    let id := spans.size
    let pushed ← pushAll (add spans (.node tag range text none offspring) parent) id offspring
    return (id, pushed)

/-- Push the children of a span one after the other, and enter each of them once it is there. -/
def pushAll (spans : Array Span) (id : Nat) : List Host → Except Refusal (Array Span)
  | [] => .ok spans
  | child :: rest => do
    let (number, pushed) ← push spans (some id) child
    pushAll (enter pushed id number) id rest

end

section Forward

variable {spans : Array Span}

/-- A table without spans lists no children. -/
theorem forward_empty : Span.Forward #[] := by
  intro id span hspan
  cases hspan

/-- A span without children may be added. -/
theorem forward_add (h : Span.Forward spans) (node : Host) (parent : Option Nat) :
    Span.Forward (add spans node parent) := by
  intro id span hspan child hchild
  rw [add, Array.getElem?_push] at hspan
  rw [add, Array.size_push]
  split at hspan
  · cases hspan
    cases hchild
  · have hbounds := h id span hspan child hchild
    exact ⟨hbounds.1, Nat.lt_succ_of_lt hbounds.2⟩

/-- A child may be entered if it stands behind the span in the table. -/
theorem forward_enter (h : Span.Forward spans) {id child : Nat} (hlt : id < child)
    (hchild : child < spans.size) : Span.Forward (enter spans id child) := by
  intro other span hspan number hnumber
  rw [enter, Array.getElem?_modify] at hspan
  rw [enter, Array.size_modify]
  split at hspan
  · next heq =>
    subst heq
    obtain ⟨before, hbefore, rfl⟩ := Option.map_eq_some_iff.mp hspan
    rcases List.mem_append.mp hnumber with hmem | hmem
    · exact h id before hbefore number hmem
    · obtain rfl := List.mem_singleton.mp hmem
      exact ⟨hlt, hchild⟩
  · exact h other span hspan number hnumber

mutual

/-- Pushing a node keeps children behind their parents. The node's number is that of the spans before it. -/
theorem forward_push (spans : Array Span) (parent : Option Nat) (host : Host) (id : Nat)
    (after : Array Span) (hforward : Span.Forward spans) (h : push spans parent host = .ok (id, after)) :
    id = spans.size ∧ spans.size < after.size ∧ Span.Forward after := by
  cases host with
  | node tag range text withheld offspring =>
    cases withheld with
    | some refusal =>
      rw [push] at h
      cases h
    | none =>
      rw [push] at h
      cases hbelow : pushAll (add spans (.node tag range text none offspring) parent) spans.size
          offspring with
      | error refusal =>
        rw [hbelow] at h
        cases h
      | ok pushed =>
        rw [hbelow] at h
        cases h
        have hsize : (add spans (.node tag range text none offspring) parent).size = spans.size + 1 :=
          Array.size_push _
        obtain ⟨hle, hpushed⟩ := forward_pushAll _ spans.size offspring after
          (forward_add hforward _ parent) (by omega) hbelow
        exact ⟨rfl, by omega, hpushed⟩

/-- Pushing the children of a span keeps children behind their parents. -/
theorem forward_pushAll (spans : Array Span) (id : Nat) (hosts : List Host) (after : Array Span)
    (hforward : Span.Forward spans) (hid : id < spans.size) (h : pushAll spans id hosts = .ok after) :
    spans.size ≤ after.size ∧ Span.Forward after := by
  cases hosts with
  | nil =>
    rw [pushAll] at h
    cases h
    exact ⟨Nat.le_refl _, hforward⟩
  | cons host hosts =>
    rw [pushAll] at h
    cases hfirst : push spans (some id) host with
    | error refusal =>
      rw [hfirst] at h
      cases h
    | ok answer =>
      obtain ⟨number, pushed⟩ := answer
      rw [hfirst] at h
      obtain ⟨rfl, hlt, hpushed⟩ := forward_push spans (some id) host number pushed hforward hfirst
      have hsize : (enter pushed id spans.size).size = pushed.size := Array.size_modify
      obtain ⟨hle, hafter⟩ := forward_pushAll _ id hosts after (forward_enter hpushed hid hlt)
        (by omega) h
      exact ⟨by omega, hafter⟩

end

end Forward

/-- The arena of a host tree, with nothing modified. -/
def build (host : Host) : Except Refusal SpanArena :=
  match hpush : push #[] none host with
  | .error refusal => .error refusal
  | .ok (id, spans) =>
    have hpushed := forward_push #[] none host id spans forward_empty hpush
    .ok { spans, rooted := hpushed.2.1, forward := hpushed.2.2 }

/-- Tables with the same lists of children have their children behind their parents alike. -/
theorem forward_of_map_children {spans after : Array Span} (h : Span.Forward spans)
    (hsame : after.map (·.children) = spans.map (·.children)) : Span.Forward after := by
  intro id span hspan child hchild
  have hsize : after.size = spans.size := by
    simpa using congrArg Array.size hsame
  have hlist : (spans.map (·.children))[id]? = some span.children := by
    rw [← hsame, Array.getElem?_map, hspan]
    rfl
  rw [Array.getElem?_map] at hlist
  obtain ⟨before, hbefore, hchildren⟩ := Option.map_eq_some_iff.mp hlist
  rw [hsize]
  exact h id before hbefore child (by rw [hchildren]; exact hchild)

section Visiting

variable {σ : Type} (visitor : σ → Span → σ × Modification)

/-- Hand spans to a visitor one after another and give each of them the modification that it chooses. -/
def visitEach (state : σ) : List Span → σ × List Span
  | [] => (state, [])
  | span :: rest =>
    let visited := visitor state span
    let others := visitEach visited.1 rest
    (others.1, { span with modification := visited.2 } :: others.2)

/-- A visitor chooses modifications only. -/
theorem map_children_visitEach (state : σ) (spans : List Span) :
    (visitEach visitor state spans).2.map (·.children) = spans.map (·.children) := by
  induction spans generalizing state with
  | nil => rfl
  | cons span spans ih => rw [visitEach, List.map_cons, List.map_cons, ih]

/-- Visit every span in the order of the table. -/
def forEach (state : σ) (arena : SpanArena) : σ × SpanArena :=
  let visited := visitEach visitor state arena.spans.toList
  have hsame : visited.2.toArray.map (·.children) = arena.spans.map (·.children) := by
    rw [List.map_toArray, map_children_visitEach, ← Array.toList_map]
  have hsize : visited.2.toArray.size = arena.spans.size := by simpa using congrArg Array.size hsame
  (visited.1,
    { spans := visited.2.toArray
      rooted := by
        rw [hsize]
        exact arena.rooted
      forward := forward_of_map_children arena.forward hsame })

end Visiting

/-- Give the span with one number a modification. -/
def set (arena : SpanArena) (id : Nat) (modification : Modification) : SpanArena :=
  let spans := arena.spans.modify id fun span => { span with modification }
  { spans
    rooted := by
      rw [Array.size_modify]
      exact arena.rooted
    forward := by
      refine forward_of_map_children arena.forward (Array.ext_getElem? fun index => ?_)
      rw [Array.getElem?_map, Array.getElem?_map, Array.getElem?_modify]
      split
      · rw [Option.map_map]
        rfl
      · rfl }

section Writing

variable (arena : SpanArena) (text : String)

mutual

/-- Write a span and everything below it behind what is written so far. -/
def writeSpan (id : Nat) (hid : id < arena.spans.size) (out : String) : String :=
  let span := arena.spans[id]
  match span.modification with
  | .skipAll => out
  | .replace replacement => out ++ replacement
  | modification =>
    if span.children.isEmpty then
      out ++ Text.sliceOrEmpty text span.range.start span.range.stop
    else
      writeChildren id (modification = .skipChildren) span.range.stop span.children
        (arena.forward id span (Array.getElem?_eq_getElem hid)) span.range.start out
termination_by (arena.spans.size - id, 1, 0)

/-- Write the text from `cursor` to `stop` with the children of a span in the place of their ranges, or with
nothing there if they are skipped. -/
def writeChildren (id : Nat) (skip : Bool) (stop : Nat) (children : List Nat)
    (hchildren : ∀ child ∈ children, id < child ∧ child < arena.spans.size) (cursor : Nat)
    (out : String) : String :=
  match children with
  | [] => out ++ Text.sliceOrEmpty text cursor stop
  | child :: rest =>
    have hbounds := List.forall_mem_cons.mp hchildren
    have hchild : child < arena.spans.size := hbounds.1.2
    let range := arena.spans[child].range
    let before := out ++ Text.sliceOrEmpty text cursor range.start
    let written := if skip then before else writeSpan child hchild before
    writeChildren id skip stop rest hbounds.2 range.stop written
termination_by (arena.spans.size - id, 0, children.length)

end

end Writing

/-- What the root and everything below it write, with its blanks collapsed. -/
def modifiedText (text : String) (arena : SpanArena) : String :=
  Text.collapse (arena.writeSpan text 0 arena.rooted "")

end SpanArena

end Synopsis
