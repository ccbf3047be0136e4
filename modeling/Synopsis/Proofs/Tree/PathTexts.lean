import Mathlib.Data.List.Forall2
import Mathlib.Data.Option.Basic
import Synopsis.Proofs.Text.Positional
import Synopsis.Proofs.Text.Words
import Synopsis.Proofs.Tree.Paths
import Synopsis.Tree.Path

/-!
# Written paths

A written path is cut at its points, and each piece is read as an index on its own. So two written paths with
a point between them are read as the one path followed by the other, unless one of them is empty: the empty
text is a path by itself, but it is no index between two points. What is written for a path is therefore read
back index by index, and a tree is descended by the joined text as by the one text and then by the other.
-/

namespace Synopsis.Tree

open Text

/-- Whether an index is what a piece of a path denotes. -/
def Spelled (index : Nat) (piece : List Char) : Prop := readNumeral 10 (Nat.pow 2 64) piece = .ok index

/-- The node that a written path leads to from a node. -/
def descendBy? (tree : Tree) (id : Nat) (text : String) : Option Nat :=
  (readPath text).toOption.bind (tree.descend? id)

/-- Pieces are read as indices exactly when each of them denotes its index, in whatever path they stand. -/
theorem readIndices_eq_ok_iff (text : String) (pieces : List (List Char)) (path : List Nat) :
    readIndices text pieces = .ok path ↔ List.Forall₂ Spelled path pieces := by
  induction pieces generalizing path with
  | nil => simp [readIndices, eq_comm]
  | cons piece rest ih =>
    rw [readIndices, List.forall₂_cons_right_iff]
    cases hpiece : readNumeral 10 (Nat.pow 2 64) piece with
    | error fault => simp [Spelled, hpiece]
    | ok index =>
      have hspelled (other : Nat) : Spelled other piece ↔ index = other := by simp [Spelled, hpiece]
      simp only [hspelled, ← ih]
      cases readIndices text rest with
      | error fault => simp [bind, Except.bind]
      | ok indices => simp [bind, Except.bind, pure, Except.pure, eq_comm]

/-- A text that is not empty is read piece by piece. -/
theorem readPath_eq_ok_iff {text : String} (hne : text ≠ "") (path : List Nat) :
    readPath text = .ok path ↔ List.Forall₂ Spelled path (splitWhere (· = '.') text.toList) := by
  rw [readPath, if_neg (by simpa using hne), readIndices_eq_ok_iff]

/-- A point joins two written paths into one. -/
theorem readPath_append {first second : String} (hfirst : first ≠ "") (hsecond : second ≠ "")
    (path : List Nat) :
    readPath (first ++ "." ++ second) = .ok path ↔
      ∃ upper lower, readPath first = .ok upper ∧ readPath second = .ok lower ∧ path = upper ++ lower := by
  have hne : first ++ "." ++ second ≠ "" := by simp [hfirst]
  have hpieces : splitWhere (· = '.') (first ++ "." ++ second).toList =
      splitWhere (· = '.') first.toList ++ splitWhere (· = '.') second.toList := by
    have htext : (first ++ "." ++ second).toList = first.toList ++ '.' :: second.toList := by simp
    rw [htext, splitWhere_append_cons (by simp)]
  simp only [readPath_eq_ok_iff hne, readPath_eq_ok_iff hfirst, readPath_eq_ok_iff hsecond, hpieces]
  constructor
  · intro h
    exact ⟨_, _, List.forall₂_take_append _ _ _ h, List.forall₂_drop_append _ _ _ h,
      (List.take_append_drop _ path).symm⟩
  · rintro ⟨upper, lower, hupper, hlower, rfl⟩
    exact List.rel_append hupper hlower

/-- No point stands in a decimal numeral. -/
theorem ne_point_of_mem {n : Nat} {text : List Char} (h : IsNumeral 10 text n) {c : Char} (hc : c ∈ text) :
    c ≠ '.' := by
  rintro rfl
  obtain ⟨value, hvalue⟩ := (h.digit_of_mem hc).resolve_left (by decide)
  have hcode := hvalue.code (by decide)
  simp at hcode
  omega

/-- The path of one index is written as its numeral. -/
theorem readPath_toString {index : Nat} (h : index < Nat.pow 2 64) :
    readPath (toString index) = .ok [index] := by
  have hnumeral := isNumeral_toString index
  have hne : toString index ≠ "" := by simp
  have hpieces : splitWhere (· = '.') (toString index).toList = [(toString index).toList] :=
    splitWhere_of_forall fun c hc => by simpa using ne_point_of_mem hnumeral hc
  rw [readPath_eq_ok_iff hne, hpieces]
  exact .cons ((readNumeral_eq_ok_iff (by decide) _ _ _).mpr ⟨hnumeral, h⟩) .nil

/-- A path with an index is not written as the empty text. -/
theorem ne_empty_of_readPath {text : String} {index : Nat} {rest : List Nat}
    (h : readPath text = .ok (index :: rest)) : text ≠ "" := by
  rintro rfl
  exact absurd (Except.ok.inj h) (List.cons_ne_nil index rest).symm

/-- What is written for a path is read back. -/
theorem readPath_intercalate {path : List Nat} (h : ∀ index ∈ path, index < Nat.pow 2 64) :
    readPath (".".intercalate (path.map toString)) = .ok path := by
  induction path with
  | nil => rfl
  | cons index rest ih =>
    obtain ⟨hindex, hrest⟩ := List.forall_mem_cons.mp h
    cases rest with
    | nil => exact readPath_toString hindex
    | cons second others =>
      have hhead := readPath_toString hindex
      have htail := ih hrest
      rw [List.map_cons, List.map_cons, String.intercalate_cons_cons, ← List.map_cons,
        readPath_append (ne_empty_of_readPath hhead) (ne_empty_of_readPath htail)]
      exact ⟨_, _, hhead, htail, rfl⟩

/-- A text leads to a node exactly when the path that it denotes does. -/
theorem descendBy?_eq_some_iff (tree : Tree) (id : Nat) (text : String) (reached : Nat) :
    tree.descendBy? id text = some reached ↔
      ∃ path, readPath text = .ok path ∧ tree.descend? id path = some reached := by
  rw [descendBy?, Option.bind_eq_some_iff]
  refine exists_congr fun path => and_congr_left fun _ => ?_
  cases readPath text <;> simp [Except.toOption]

/-- Two texts with a point between them are followed one after the other. -/
theorem descendBy?_append (tree : Tree) (id : Nat) {first second : String} (hfirst : first ≠ "")
    (hsecond : second ≠ "") :
    tree.descendBy? id (first ++ "." ++ second) =
      (tree.descendBy? id first).bind fun reached => tree.descendBy? reached second := by
  refine Option.ext fun reached => ?_
  simp only [Option.bind_eq_some_iff, descendBy?_eq_some_iff, readPath_append hfirst hsecond]
  constructor
  · rintro ⟨_, ⟨upper, lower, hupper, hlower, rfl⟩, hreached⟩
    rw [descend?_append, Option.bind_eq_some_iff] at hreached
    obtain ⟨middle, hmiddle, hreached⟩ := hreached
    exact ⟨middle, ⟨upper, hupper, hmiddle⟩, lower, hlower, hreached⟩
  · rintro ⟨middle, ⟨upper, hupper, hmiddle⟩, lower, hlower, hreached⟩
    refine ⟨upper ++ lower, ⟨upper, lower, hupper, hlower, rfl⟩, ?_⟩
    rwa [descend?_append, hmiddle]

/-- What is written for a path of indices is read back as that path. Two texts that are not empty, with a point
between them, are read exactly when each of them is, as the one path followed by the other; and from every
node of every tree the joined text leads where the second leads from where the first does. -/
theorem written_paths_concatenate :
    (∀ path : List UInt64, readPath (".".intercalate (path.map fun index => toString index.toNat)) =
        .ok (path.map UInt64.toNat)) ∧
      ∀ first second : String, first ≠ "" → second ≠ "" →
        (∀ path, readPath (first ++ "." ++ second) = .ok path ↔
          ∃ upper lower, readPath first = .ok upper ∧ readPath second = .ok lower ∧
            path = upper ++ lower) ∧
        ∀ (tree : Tree) (id : Nat), tree.descendBy? id (first ++ "." ++ second) =
          (tree.descendBy? id first).bind fun reached => tree.descendBy? reached second := by
  refine ⟨fun path => ?_, fun first second hfirst hsecond => ⟨readPath_append hfirst hsecond,
    fun tree id => tree.descendBy?_append id hfirst hsecond⟩⟩
  have hbound : ∀ index ∈ path.map UInt64.toNat, index < Nat.pow 2 64 := by
    intro index hmem
    obtain ⟨word, -, rfl⟩ := List.mem_map.mp hmem
    exact word.toNat_lt
  rw [← readPath_intercalate hbound, List.map_map]
  rfl

/-- The greatest index beside the least, and a sign and a zero in the second text. -/
theorem written_paths_concatenate_signed :
    let outline : Outline := .node ⟨.block, ⟨0, 2⟩, false, false⟩
      [.node ⟨.syntaxList, ⟨0, 2⟩, false, false⟩
        [.node ⟨.identifier, ⟨0, 1⟩, false, false⟩ [], .node ⟨.identifier, ⟨1, 2⟩, false, false⟩ []]]
    let tree := outline.tree ⟨"a.ts", "ab"⟩
    readPath (".".intercalate ["18446744073709551615", "0"]) = .ok [18446744073709551615, 0] ∧
      ("0" ≠ "" ∧ "+01" ≠ "") ∧ readPath ("0" ++ "." ++ "+01") = .ok ([0] ++ [1]) ∧
      tree.descendBy? 0 "0" = some 1 ∧ tree.descendBy? 1 "+01" = some 3 ∧
      tree.descendBy? 0 ("0" ++ "." ++ "+01") = some 3 := by
  intro outline tree
  obtain ⟨hwritten, hjoined⟩ := written_paths_concatenate
  obtain ⟨hread, hdescend⟩ := hjoined "0" "+01" (by decide) (by decide)
  have hfirst : readPath "0" = .ok [0] := by decide +kernel
  have hsecond : readPath "+01" = .ok [1] := by decide +kernel
  have hupper : tree.descendBy? 0 "0" = some 1 := by decide +kernel
  have hlower : tree.descendBy? 1 "+01" = some 3 := by decide +kernel
  refine ⟨hwritten [18446744073709551615, 0], ⟨by decide, by decide⟩,
    (hread _).mpr ⟨_, _, hfirst, hsecond, rfl⟩, hupper, hlower, ?_⟩
  rw [hdescend, hupper]
  exact hlower

end Synopsis.Tree
