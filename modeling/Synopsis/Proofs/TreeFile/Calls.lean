import Synopsis.TreeFile
import Synopsis.Proofs.Outcome

/-!
# Entries as calls to a builder

Loading adds one entry after another and marks each node by the number with which the builder answered.
The same calls can be listed in advance: a node's number is the number of nodes before it, and the entries
of known kinds say how many nodes each of them adds. Adding an entry is carrying out its listed calls, so
what holds of lists of calls holds of tree files.
-/

namespace Synopsis

namespace Builder

variable {builder after : Builder} {id : Nat}

/-- A node that is added gets the number of the nodes before it, and there is one node more. -/
theorem size_of_push {kind : Kind} {range : Range} {synthetic : Bool}
    (h : carriedOut (builder.push kind range synthetic) = .ok (id, after)) :
    id = builder.nodes.size ∧ after.nodes.size = builder.nodes.size + 1 := by
  rw [push] at h
  split at h
  · cases h
  · cases h
    exact ⟨rfl, Array.size_push _⟩
  · cases h
    exact ⟨rfl, by rw [Array.size_push, Array.size_modify]⟩

/-- A node that is started gets the number of the nodes before it, and there is one node more. -/
theorem size_of_startNode {kind : Kind} {start : Nat}
    (h : carriedOut (builder.startNode kind start) = .ok (id, after)) :
    id = builder.nodes.size ∧ after.nodes.size = builder.nodes.size + 1 := by
  rw [startNode] at h
  split at h
  · next added pushed hpush =>
    cases h
    have hcarried : carriedOut (builder.push kind (Range.point start) false) = .ok (id, pushed) := by
      rw [hpush]
      rfl
    obtain ⟨hid, hsize⟩ := size_of_push hcarried
    exact ⟨hid, hsize⟩
  · next failed hfailed =>
    cases hpush : builder.push kind (Range.point start) false with
    | mk answer pushed =>
      cases answer with
      | error misuse =>
        rw [hpush] at h
        cases h
      | ok added => exact absurd hpush (hfailed added pushed)

/-- Closing a node adds none. -/
theorem size_of_finishNode {stop : Nat} {answer : Unit}
    (h : carriedOut (builder.finishNode stop) = .ok (answer, after)) :
    after.nodes.size = builder.nodes.size := by
  rw [finishNode] at h
  split at h
  · cases h
  · dsimp only at h
    split at h
    · cases h
    · cases h
      exact Array.size_modify

/-- The first of some calls is carried out before the others. -/
theorem run_cons {α : Type} {call : BuilderCall} (outcome : Except Misuse α × Builder)
    {number : α → Option Nat} (h : builder.perform call = (outcome.1.map number, outcome.2))
    (rest : List BuilderCall) :
    builder.run (call :: rest) = carriedOut outcome >>= fun answered => answered.2.run rest := by
  obtain ⟨answer, after⟩ := outcome
  rw [run, h]
  cases answer with
  | error misuse => rfl
  | ok found => rfl

end Builder

namespace Entry

mutual

/-- The number of entries of a known kind with only known kinds above them. -/
def size : Entry → Nat
  | .entry kind _ _ children _ _ =>
    match Kind.ofName? kind with
    | some _ => sizeAll children + 1
    | none => 0

/-- The number of entries in a list of them, counted in the same way. -/
def sizeAll : List Entry → Nat
  | [] => 0
  | first :: rest => first.size + sizeAll rest

end

/-- The calls that mark a node. -/
def marks (id : Nat) (synthetic sealed : Bool) : List BuilderCall :=
  (if synthetic then [.markSynthetic id] else []) ++ (if sealed then [.markSealed id] else [])

mutual

/-- The builder calls that make up an entry whose node gets the number `id`. A synthetic entry
without children has no end of its own. -/
def calls (id : Nat) : Entry → List BuilderCall
  | .entry name start stop children synthetic sealed =>
    match Kind.ofName? name with
    | none => []
    | some kind =>
      if synthetic && children.isEmpty then .synthetic kind start :: marks id false sealed
      else
        .startNode kind start :: callsAll (id + 1) children ++
          .finishNode stop :: marks id synthetic sealed

/-- The builder calls that make up a list of entries, the first of which gets the number `next`. -/
def callsAll (next : Nat) : List Entry → List BuilderCall
  | [] => []
  | first :: rest => first.calls next ++ callsAll (next + first.size) rest

end

/-- A builder with the marks of a node. -/
def marked (id : Nat) (synthetic sealed : Bool) (builder : Builder) : Builder :=
  let mapped := if synthetic then builder.markSynthetic id else builder
  if sealed then mapped.markSealed id else mapped

/-- Marking adds no nodes. -/
theorem size_marked (id : Nat) (synthetic sealed : Bool) (builder : Builder) :
    (marked id synthetic sealed builder).nodes.size = builder.nodes.size := by
  cases synthetic <;> cases sealed <;> simp [marked, Builder.markSynthetic, Builder.markSealed]

/-- The calls that mark a node are carried out in any case. -/
theorem run_marks_append (id : Nat) (synthetic sealed : Bool) (builder : Builder)
    (rest : List BuilderCall) :
    builder.run (marks id synthetic sealed ++ rest) = (marked id synthetic sealed builder).run rest := by
  cases synthetic <;> cases sealed <;> rfl

section Entries

variable {name : String} {kind : Kind} {start stop : Nat} {children : List Entry}
  {synthetic sealed : Bool}

/-- The calls of a synthetic entry without children. -/
theorem calls_leaf (id : Nat) (hkind : Kind.ofName? name = some kind)
    (hleaf : (synthetic && children.isEmpty) = true) :
    (Entry.entry name start stop children synthetic sealed).calls id =
      .synthetic kind start :: marks id false sealed := by
  rw [calls, hkind]
  exact if_pos hleaf

/-- The calls of any other entry. -/
theorem calls_interior (id : Nat) (hkind : Kind.ofName? name = some kind)
    (hleaf : ¬ (synthetic && children.isEmpty) = true) :
    (Entry.entry name start stop children synthetic sealed).calls id =
      .startNode kind start ::
        (callsAll (id + 1) children ++ .finishNode stop :: marks id synthetic sealed) := by
  rw [calls, hkind]
  exact if_neg hleaf

/-- Adding an entry of an unknown kind changes nothing. -/
theorem addTo_unknown (builder : Builder) (hkind : Kind.ofName? name = none) :
    (Entry.entry name start stop children synthetic sealed).addTo builder = .ok builder := by
  rw [addTo, hkind]

/-- Adding a synthetic entry without children. -/
theorem addTo_leaf (builder : Builder) (hkind : Kind.ofName? name = some kind)
    (hleaf : (synthetic && children.isEmpty) = true) :
    (Entry.entry name start stop children synthetic sealed).addTo builder =
      Builder.carriedOut (builder.synthetic kind start) >>= fun answered =>
        .ok (marked answered.1 false sealed answered.2) := by
  rw [addTo, hkind]
  dsimp only
  rw [if_pos hleaf]
  rfl

/-- Adding any other entry. -/
theorem addTo_interior (builder : Builder) (hkind : Kind.ofName? name = some kind)
    (hleaf : ¬ (synthetic && children.isEmpty) = true) :
    (Entry.entry name start stop children synthetic sealed).addTo builder =
      Builder.carriedOut (builder.startNode kind start) >>= fun answered =>
        addAllTo answered.2 children >>= fun filled =>
          Builder.carriedOut (filled.finishNode stop) >>= fun closed =>
            .ok (marked answered.1 synthetic sealed closed.2) := by
  rw [addTo, hkind]
  dsimp only
  rw [if_neg hleaf]
  simp only [pure_bind]
  rfl

end Entries

section Counting

mutual

/-- An entry adds as many nodes as it counts. -/
theorem size_of_addTo (entry : Entry) (builder after : Builder) (h : entry.addTo builder = .ok after) :
    after.nodes.size = builder.nodes.size + entry.size := by
  cases entry with
  | entry name start stop children synthetic sealed =>
    rw [size]
    cases hkind : Kind.ofName? name with
    | none =>
      rw [addTo_unknown builder hkind] at h
      cases h
      rfl
    | some kind =>
      dsimp only
      by_cases hleaf : (synthetic && children.isEmpty) = true
      · rw [addTo_leaf builder hkind hleaf] at h
        obtain ⟨answered, hanswered, hmarked⟩ := (bind_eq_ok_iff _ _ _).mp h
        cases hmarked
        obtain ⟨-, hempty⟩ := Bool.and_eq_true_iff.mp hleaf
        rw [size_marked, (Builder.size_of_push hanswered).2, List.isEmpty_iff.mp hempty, sizeAll]
      · rw [addTo_interior builder hkind hleaf] at h
        obtain ⟨answered, hanswered, hbelow⟩ := (bind_eq_ok_iff _ _ _).mp h
        obtain ⟨filled, hfilled, hbehind⟩ := (bind_eq_ok_iff _ _ _).mp hbelow
        obtain ⟨closed, hclosed, hmarked⟩ := (bind_eq_ok_iff _ _ _).mp hbehind
        cases hmarked
        have hstarted := (Builder.size_of_startNode hanswered).2
        have hadded := size_of_addAllTo children answered.2 filled hfilled
        have hended := Builder.size_of_finishNode hclosed
        rw [size_marked]
        omega

/-- Entries add as many nodes as they count. -/
theorem size_of_addAllTo (entries : List Entry) (builder after : Builder)
    (h : addAllTo builder entries = .ok after) :
    after.nodes.size = builder.nodes.size + sizeAll entries := by
  cases entries with
  | nil =>
    rw [addAllTo] at h
    cases h
    rfl
  | cons entry entries =>
    rw [addAllTo] at h
    obtain ⟨added, hadded, hothers⟩ := (bind_eq_ok_iff _ _ _).mp h
    rw [size_of_addAllTo entries added after hothers, size_of_addTo entry builder added hadded, sizeAll,
      Nat.add_assoc]

end

end Counting

section Running

mutual

/-- Carrying out the calls of an entry is adding it: the numbers that were counted in advance are those with
which the builder answers. -/
theorem run_calls_eq_addTo (entry : Entry) (builder : Builder) (rest : List BuilderCall) :
    builder.run (entry.calls builder.nodes.size ++ rest) = entry.addTo builder >>= (·.run rest) := by
  cases entry with
  | entry name start stop children synthetic sealed =>
    cases hkind : Kind.ofName? name with
    | none =>
      rw [addTo_unknown builder hkind, calls, hkind]
      rfl
    | some kind =>
      by_cases hleaf : (synthetic && children.isEmpty) = true
      · rw [calls_leaf _ hkind hleaf, addTo_leaf builder hkind hleaf, List.cons_append,
          Builder.run_cons (builder.synthetic kind start) rfl, bind_assoc]
        cases hanswered : Builder.carriedOut (builder.synthetic kind start) with
        | error misuse => rfl
        | ok answered =>
          change answered.2.run _ = (marked answered.1 false sealed answered.2).run rest
          rw [← (Builder.size_of_push hanswered).1, run_marks_append]
      · rw [calls_interior _ hkind hleaf, addTo_interior builder hkind hleaf, List.cons_append,
          Builder.run_cons (builder.startNode kind start) rfl, bind_assoc]
        cases hanswered : Builder.carriedOut (builder.startNode kind start) with
        | error misuse => rfl
        | ok answered =>
          obtain ⟨hid, hsize⟩ := Builder.size_of_startNode hanswered
          change answered.2.run _ = (addAllTo answered.2 children >>= _) >>= _
          rw [← hsize, ← hid, List.append_assoc, run_callsAll_eq_addAllTo children answered.2, bind_assoc]
          refine bind_congr fun filled => ?_
          rw [List.cons_append, Builder.run_cons (filled.finishNode stop) rfl, bind_assoc]
          exact bind_congr fun closed => run_marks_append _ _ _ _ _

/-- Carrying out the calls of entries is adding them. -/
theorem run_callsAll_eq_addAllTo (entries : List Entry) (builder : Builder) (rest : List BuilderCall) :
    builder.run (callsAll builder.nodes.size entries ++ rest) =
      addAllTo builder entries >>= (·.run rest) := by
  cases entries with
  | nil => rfl
  | cons entry entries =>
    rw [callsAll, addAllTo, List.append_assoc, run_calls_eq_addTo entry builder]
    cases hadded : entry.addTo builder with
    | error misuse => rfl
    | ok added =>
      change added.run _ = addAllTo added entries >>= _
      rw [← size_of_addTo entry builder added hadded, run_callsAll_eq_addAllTo entries added]

end

end Running

end Entry

/-- A tree file is assembled by carrying out the calls of its root. -/
theorem TreeFile.assemble_eq_run (file : TreeFile) :
    file.assemble = (Builder.new file.source).run (file.root.calls 0) >>= Builder.finish := by
  have hrun := Entry.run_calls_eq_addTo file.root (Builder.new file.source) []
  rw [List.append_nil] at hrun
  change (file.root.addTo (Builder.new file.source) >>= Builder.finish) = _
  change (Builder.new file.source).run (file.root.calls 0) = file.root.addTo _ >>= .ok at hrun
  rw [hrun, bind_assoc]
  rfl

end Synopsis
