import Synopsis.Span

/-!
# Summary rules

A rule set gives some kinds a modification. The last rule that is set for a kind is the one in
force, and two rule sets are the same when they have the same rules in force.
-/

namespace Synopsis

/-- A modification for each kind that has a rule. -/
@[ext]
structure Rules where
  get : Kind → Option Modification

/-- The list of all kinds leaves none out. -/
theorem Kind.mem_all (kind : Kind) : kind ∈ Kind.all := by
  cases kind <;> decide

namespace Rules

instance : DecidableEq Rules := fun left right =>
  decidable_of_iff (∀ kind ∈ Kind.all, left.get kind = right.get kind)
    ⟨fun h => Rules.ext (funext fun kind => h kind kind.mem_all), fun h _ _ => h ▸ rfl⟩

/-- No rules. -/
def empty : Rules := ⟨fun _ => none⟩

/-- Set the rule of a kind. -/
def set (rules : Rules) (kind : Kind) (modification : Modification) : Rules :=
  ⟨fun other => if other = kind then some modification else rules.get other⟩

/-- Leave a kind without a rule. -/
def remove (rules : Rules) (kind : Kind) : Rules :=
  ⟨fun other => if other = kind then none else rules.get other⟩

/-- The rules in force, in ascending order of kinds. -/
def entries (rules : Rules) : List (Kind × Modification) :=
  Kind.all.filterMap fun kind => (rules.get kind).map (kind, ·)

/-- Whether no kind has a rule. -/
def isEmpty (rules : Rules) : Bool := rules.entries.isEmpty

/-- The built-in rules for declarations, which drop documentation and the word `declare`. -/
def declarations : Rules :=
  (empty.set .jsDocComment .skipAll).set .declareKeyword .skipAll

/-- The modification of a span once the rules are applied to it. A node without a rule, and one
whose tag is no kind, keeps what it has. -/
def apply (rules : Rules) (span : Span) : Modification :=
  (span.node.kind?.bind rules.get).getD span.modification

end Rules

end Synopsis
