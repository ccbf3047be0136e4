import Synopsis.Path
import Synopsis.Proofs.Text.Words

/-!
# Components of a path

The components of a path are the pieces of it that count. Going up drops the last of them, and it can be done
as long as there is one. The path that is left is written as a shorter start of the text, whatever idle pieces
and slashes are in it, so there is an end to going up.
-/

namespace Synopsis.Path

/-- The pieces of a path that count: all but the idle ones, and the first piece of a relative path. -/
def components : Path → List String
  | ⟨true, pieces⟩ => pieces.filter (!isIdle ·)
  | ⟨false, []⟩ => []
  | ⟨false, first :: rest⟩ => first :: rest.filter (!isIdle ·)

/-- Whether a piece counts as a component behind others, which are given in any order. -/
def Counts (rooted : Bool) (others : List String) (piece : String) : Prop :=
  isIdle piece = false ∨ rooted = false ∧ others = []

/-- The path reached by going up a number of times. -/
def climb (path : Path) : Nat → Option Path
  | 0 => some path
  | count + 1 => (path.climb count).bind parent?

section Components

variable {rooted : Bool} {pieces : List String} {piece : String}

/-- A piece that counts is the last component. -/
theorem components_concat_of_counts (h : Counts rooted pieces piece) :
    components ⟨rooted, pieces ++ [piece]⟩ = components ⟨rooted, pieces⟩ ++ [piece] := by
  cases rooted with
  | true =>
    have hpiece : isIdle piece = false := h.resolve_right (by simp)
    simp [components, hpiece]
  | false =>
    cases pieces with
    | nil => rfl
    | cons first rest =>
      have hpiece : isIdle piece = false := h.resolve_right (by simp)
      simp [components, hpiece]

/-- A piece that does not count adds no component. -/
theorem components_concat_of_not_counts (h : ¬ Counts rooted pieces piece) :
    components ⟨rooted, pieces ++ [piece]⟩ = components ⟨rooted, pieces⟩ := by
  obtain ⟨hpiece, hbehind⟩ := not_or.mp h
  rw [Bool.not_eq_false] at hpiece
  cases rooted with
  | true => simp [components, hpiece]
  | false =>
    cases pieces with
    | nil => exact absurd ⟨rfl, rfl⟩ hbehind
    | cons first rest => simp [components, hpiece]

/-- A piece at the end stays if it counts. -/
theorem dropIdle_cons_of_counts (h : Counts rooted pieces piece) :
    dropIdle rooted (piece :: pieces) = piece :: pieces := by
  cases pieces with
  | nil =>
    rw [dropIdle, if_neg]
    rcases h with hpiece | ⟨rfl, -⟩
    · simp [hpiece]
    · simp
  | cons second rest =>
    have hpiece : isIdle piece = false := h.resolve_right (by simp)
    simp [dropIdle, hpiece]

/-- A piece at the end is dropped if it does not count. -/
theorem dropIdle_cons_of_not_counts (h : ¬ Counts rooted pieces piece) :
    dropIdle rooted (piece :: pieces) = dropIdle rooted pieces := by
  obtain ⟨hpiece, hbehind⟩ := not_or.mp h
  rw [Bool.not_eq_false] at hpiece
  cases pieces with
  | nil =>
    have hrooted : rooted = true := by simpa using hbehind
    simp [dropIdle, hpiece, hrooted]
  | cons second rest => simp [dropIdle, hpiece]

end Components

/-- The order of the pieces before it does not matter for whether a piece counts. -/
theorem counts_reverse_iff {rooted : Bool} {pieces : List String} {piece : String} :
    Counts rooted pieces.reverse piece ↔ Counts rooted pieces piece := by
  simp [Counts]

/-- Dropping idle pieces keeps all components. -/
theorem components_dropIdle (rooted : Bool) (pieces : List String) :
    components ⟨rooted, (dropIdle rooted pieces).reverse⟩ = components ⟨rooted, pieces.reverse⟩ := by
  induction pieces with
  | nil => rfl
  | cons piece pieces ih =>
    by_cases h : Counts rooted pieces piece
    · rw [dropIdle_cons_of_counts h]
    · rw [dropIdle_cons_of_not_counts h, ih, List.reverse_cons,
        components_concat_of_not_counts (fun hcounts => h (counts_reverse_iff.mp hcounts))]

/-- Idle pieces are dropped from the end only. -/
theorem dropIdle_suffix (rooted : Bool) (pieces : List String) : dropIdle rooted pieces <:+ pieces := by
  induction pieces with
  | nil => exact List.suffix_rfl
  | cons piece pieces ih =>
    by_cases h : Counts rooted pieces piece
    · exact ⟨[], dropIdle_cons_of_counts h⟩
    · rw [dropIdle_cons_of_not_counts h]
      exact ih.trans (List.suffix_cons piece pieces)

/-- What is left at the end counts. -/
theorem counts_of_dropIdle_eq_cons {rooted : Bool} {pieces rest : List String} {last : String}
    (hdrop : dropIdle rooted pieces = last :: rest) : Counts rooted rest last := by
  induction pieces with
  | nil => contradiction
  | cons piece pieces ih =>
    by_cases h : Counts rooted pieces piece
    · rw [dropIdle_cons_of_counts h] at hdrop
      obtain ⟨rfl, rfl⟩ := List.cons.inj hdrop
      exact h
    · rw [dropIdle_cons_of_not_counts h] at hdrop
      exact ih hdrop

/-- What is above a path: the path without its last component and without what stands behind or right
before that. -/
structure IsAbove (up path : Path) (last : String) : Prop where
  rooted : up.rooted = path.rooted
  components : path.components = up.components ++ [last]
  pieces : ∃ idle trail, path.pieces = up.pieces ++ (idle ++ last :: trail) ∧
    Counts path.rooted (up.pieces ++ idle) last

/-- Going up leads to what is above. -/
theorem exists_isAbove_of_parent? {path up : Path} (h : path.parent? = some up) :
    ∃ last, IsAbove up path last := by
  unfold parent? at h
  split at h
  · contradiction
  · next last rest hdrop =>
    obtain rfl := Option.some.inj h
    have hcounts := counts_of_dropIdle_eq_cons hdrop
    refine ⟨last, rfl, ?_, ?_⟩
    · have hpath := components_dropIdle path.rooted path.pieces.reverse
      rw [hdrop, List.reverse_reverse, List.reverse_cons,
        components_concat_of_counts (counts_reverse_iff.mpr hcounts)] at hpath
      rw [components_dropIdle]
      exact hpath.symm
    · obtain ⟨trail, htrail⟩ := dropIdle_suffix path.rooted path.pieces.reverse
      obtain ⟨idle, hidle⟩ := dropIdle_suffix path.rooted rest
      have hrest : rest.reverse = (dropIdle path.rooted rest).reverse ++ idle.reverse := by
        rw [← List.reverse_append, hidle]
      have hpieces : path.pieces = rest.reverse ++ last :: trail.reverse := by
        rw [← List.reverse_reverse path.pieces, ← htrail, hdrop]
        simp
      refine ⟨idle.reverse, trail.reverse, ?_, ?_⟩
      · rw [hpieces, hrest, List.append_assoc]
      · rw [← hrest]
        exact counts_reverse_iff.mpr hcounts

/-- There is nowhere to go up to exactly when there are no components. -/
theorem parent?_eq_none_iff (path : Path) : path.parent? = none ↔ path.components = [] := by
  constructor
  · intro h
    unfold parent? at h
    split at h
    · next hdrop =>
      have hpath := components_dropIdle path.rooted path.pieces.reverse
      rw [hdrop, List.reverse_reverse] at hpath
      rw [← hpath]
      cases path.rooted <;> rfl
    · contradiction
  · intro h
    cases hup : path.parent? with
    | none => rfl
    | some up =>
      obtain ⟨last, habove⟩ := exists_isAbove_of_parent? hup
      have hcomponents := habove.components
      simp [h] at hcomponents

/-- Each step upwards drops one component. -/
theorem exists_dropped_of_climb {path up : Path} {count : Nat} (h : path.climb count = some up) :
    ∃ dropped, dropped.length = count ∧ path.components = up.components ++ dropped := by
  induction count generalizing up with
  | zero =>
    obtain rfl := Option.some.inj h
    exact ⟨[], rfl, (List.append_nil _).symm⟩
  | succ count ih =>
    obtain ⟨below, hbelow, hup⟩ := Option.bind_eq_some_iff.mp h
    obtain ⟨dropped, rfl, hcomponents⟩ := ih hbelow
    obtain ⟨last, habove⟩ := exists_isAbove_of_parent? hup
    refine ⟨last :: dropped, rfl, ?_⟩
    rw [hcomponents, habove.components, List.append_assoc]
    rfl

/-- One can go up as many times as there are components, and no more. -/
theorem exists_climb_iff (path : Path) (count : Nat) :
    (∃ up, path.climb count = some up) ↔ count ≤ path.components.length := by
  constructor
  · rintro ⟨up, hup⟩
    obtain ⟨dropped, rfl, hcomponents⟩ := exists_dropped_of_climb hup
    simp [hcomponents]
  · intro hle
    induction count with
    | zero => exact ⟨path, rfl⟩
    | succ count ih =>
      obtain ⟨below, hbelow⟩ := ih (Nat.le_of_succ_le hle)
      obtain ⟨dropped, rfl, hcomponents⟩ := exists_dropped_of_climb hbelow
      cases hup : below.parent? with
      | some up => exact ⟨up, Option.bind_eq_some_iff.mpr ⟨below, hbelow, hup⟩⟩
      | none =>
        -- All components are dropped already, so there is no further step.
        rw [hcomponents, (parent?_eq_none_iff below).mp hup, List.nil_append] at hle
        omega

/-- The first step upwards may be taken apart from the others. -/
theorem climb_succ (path : Path) (count : Nat) :
    path.climb (count + 1) = path.parent?.bind (·.climb count) := by
  induction count with
  | zero => simp [climb]
  | succ count ih =>
    rw [climb, ih, Option.bind_assoc]
    rfl

/-- The paths above a path are those reached by going up. -/
theorem getElem?_ancestors (path : Path) (count : Nat) : path.ancestors[count]? = path.climb count := by
  induction count generalizing path with
  | zero =>
    rw [ancestors]
    rfl
  | succ count ih =>
    rw [ancestors, climb_succ, List.getElem?_cons_succ]
    split
    · next up hup => rw [hup, ih, Option.bind_some]
    · next hup =>
      rw [hup]
      rfl

/-- The list of a path and the paths above it is one longer than its components. -/
theorem length_ancestors (path : Path) : path.ancestors.length = path.components.length + 1 := by
  have hlength (count : Nat) : count < path.ancestors.length ↔ count ≤ path.components.length := by
    rw [← exists_climb_iff, ← getElem?_ancestors]
    constructor
    · exact fun hlt => ⟨_, List.getElem?_eq_getElem hlt⟩
    · rintro ⟨up, hup⟩
      exact (List.getElem?_eq_some_iff.mp hup).1
  have hlast := hlength path.components.length
  have hnone := hlength (path.components.length + 1)
  omega

section Writing

/-- Whether a path can be what a text denotes: only a slash in front makes the first piece empty. -/
def Proper (path : Path) : Prop := path.rooted = true ∨ path.pieces.head? ≠ some ""

/-- The pieces between slashes, with slashes put between them again, are the text. -/
theorem intercalate_splitWhere (text : List Char) :
    "/".intercalate ((Text.splitWhere (· = '/') text).map String.ofList) = String.ofList text := by
  induction text with
  | nil => rfl
  | cons c rest ih =>
    obtain ⟨piece, pieces, hpieces⟩ :=
      List.exists_cons_of_ne_nil (Text.splitWhere_ne_nil (· = '/') rest)
    rw [hpieces, List.map_cons] at ih
    have hcons : String.ofList (c :: rest) = String.ofList [c] ++ String.ofList rest := by
      rw [← String.ofList_append]
      rfl
    rw [Text.splitWhere, hpieces, hcons, ← ih]
    split
    · next hslash =>
      obtain rfl : c = '/' := by simpa using hslash
      rw [List.map_cons, List.map_cons, String.intercalate_cons_cons]
      rfl
    · rw [List.map_cons, ← String.intercalate_cons_append, ← String.ofList_append]
      rfl

/-- The pieces of a text, of which there are none if it is empty. -/
def piecesOf (text : List Char) : List String :=
  if text.isEmpty then [] else (Text.splitWhere (· = '/') text).map String.ofList

/-- The pieces of a text with slashes between them are the text. -/
theorem intercalate_piecesOf (text : List Char) : "/".intercalate (piecesOf text) = String.ofList text := by
  rw [piecesOf]
  split
  · next hempty =>
    rw [List.isEmpty_iff.mp hempty]
    rfl
  · exact intercalate_splitWhere text

/-- The first piece is empty only if the text starts with a slash. -/
theorem head?_piecesOf {text : List Char} (h : text.head? ≠ some '/') :
    (piecesOf text).head? ≠ some "" := by
  cases text with
  | nil => simp [piecesOf]
  | cons c rest =>
    have hc : decide (c = '/') = false := by simpa using h
    obtain ⟨piece, pieces, hpieces⟩ :=
      List.exists_cons_of_ne_nil (Text.splitWhere_ne_nil (· = '/') rest)
    simp [piecesOf, Text.splitWhere, hc, hpieces]

/-- A text denotes a rooted path if it starts with a slash, and a relative one otherwise. -/
theorem ofString_cases (text : String) :
    (∃ rest, text.toList = '/' :: rest ∧ ofString text = ⟨true, piecesOf rest⟩) ∨
      text.toList.head? ≠ some '/' ∧ ofString text = ⟨false, piecesOf text.toList⟩ := by
  unfold ofString
  split
  · next rest htext => exact .inl ⟨rest, htext, rfl⟩
  · next hslash =>
    refine .inr ⟨fun hhead => ?_, rfl⟩
    obtain ⟨rest, hrest⟩ := List.head?_eq_some_iff.mp hhead
    exact hslash rest hrest

/-- The text of a path is kept as it is. -/
theorem toString_ofString (text : String) : toString (ofString text) = text := by
  rcases ofString_cases text with ⟨rest, htext, hpath⟩ | ⟨-, hpath⟩
  · rw [hpath]
    change "/" ++ "/".intercalate (piecesOf rest) = text
    rw [intercalate_piecesOf, ← String.toList_inj, htext]
    simp
  · rw [hpath]
    change "" ++ "/".intercalate (piecesOf text.toList) = text
    rw [intercalate_piecesOf, String.ofList_toList, String.empty_append]

/-- What a text denotes is a proper path. -/
theorem proper_ofString (text : String) : (ofString text).Proper := by
  rcases ofString_cases text with ⟨rest, -, hpath⟩ | ⟨hhead, hpath⟩
  · exact .inl (by rw [hpath])
  · exact .inr (by rw [hpath]; exact head?_piecesOf hhead)

/-- A text with a piece that is not empty is not empty. -/
theorem intercalate_ne_empty {pieces : List String} {piece : String} (hmem : piece ∈ pieces)
    (hne : piece ≠ "") : "/".intercalate pieces ≠ "" := by
  cases pieces with
  | nil => contradiction
  | cons first rest =>
    cases rest with
    | nil =>
      obtain rfl := List.mem_singleton.mp hmem
      rwa [String.intercalate_singleton]
    | cons second others => simp [String.intercalate_cons_cons]

/-- More pieces are written behind the others, and if one of them is not empty, the text gets longer. -/
theorem exists_intercalate_append (left : List String) {more : List String} {piece : String}
    (hmem : piece ∈ more) (hne : piece ≠ "") :
    ∃ tail, tail ≠ "" ∧ "/".intercalate (left ++ more) = "/".intercalate left ++ tail := by
  cases left with
  | nil => exact ⟨_, intercalate_ne_empty hmem hne, by simp⟩
  | cons first rest =>
    refine ⟨"/" ++ "/".intercalate more, by simp, ?_⟩
    rw [String.intercalate_append_of_ne_nil (List.cons_ne_nil _ _) (List.ne_nil_of_mem hmem),
      String.append_assoc]

namespace IsAbove

variable {up path : Path} {last : String} (h : IsAbove up path last) (hproper : path.Proper)
include h hproper

/-- No component of a proper path is empty. -/
theorem last_ne_empty : last ≠ "" := by
  rintro rfl
  obtain ⟨idle, trail, hpieces, hidle | ⟨hrelative, hfirst⟩⟩ := h.pieces
  · exact absurd hidle (by decide)
  · rcases hproper with hrooted | hhead
    · simp [hrelative] at hrooted
    · rw [List.append_eq_nil_iff] at hfirst
      simp [hpieces, hfirst] at hhead

/-- A path is written as a start of the text of one below it, and what is left out is not empty. -/
theorem exists_toString_eq : ∃ tail, tail ≠ "" ∧ toString path = toString up ++ tail := by
  obtain ⟨idle, trail, hpieces, -⟩ := h.pieces
  have hmem : last ∈ idle ++ last :: trail := by simp
  obtain ⟨tail, hne, htail⟩ := exists_intercalate_append up.pieces hmem (h.last_ne_empty hproper)
  refine ⟨tail, hne, ?_⟩
  change (if path.rooted then "/" else "") ++ "/".intercalate path.pieces =
    (if up.rooted then "/" else "") ++ "/".intercalate up.pieces ++ tail
  rw [hpieces, htail, h.rooted, String.append_assoc]

/-- What is above a proper path is a proper path. -/
theorem proper : up.Proper := by
  refine hproper.imp (fun hrooted => h.rooted.trans hrooted) fun hhead hempty => hhead ?_
  obtain ⟨idle, trail, hpieces, -⟩ := h.pieces
  rw [hpieces, List.head?_append, hempty]
  rfl

end IsAbove

/-- Each step upwards takes a character away from the end of the text at least. -/
theorem toString_of_climb {path up : Path} (hproper : path.Proper) {count : Nat}
    (h : path.climb count = some up) :
    up.Proper ∧ ∃ tail : String, count ≤ tail.length ∧ toString path = toString up ++ tail := by
  induction count generalizing up with
  | zero =>
    obtain rfl := Option.some.inj h
    exact ⟨hproper, "", Nat.zero_le _, by simp⟩
  | succ count ih =>
    obtain ⟨below, hbelow, hup⟩ := Option.bind_eq_some_iff.mp h
    obtain ⟨hbelowProper, behind, hcount, htext⟩ := ih hbelow
    obtain ⟨last, habove⟩ := exists_isAbove_of_parent? hup
    obtain ⟨tail, hne, htail⟩ := habove.exists_toString_eq hbelowProper
    refine ⟨habove.proper hbelowProper, tail ++ behind, ?_, by rw [htext, htail, String.append_assoc]⟩
    have hpos : 0 < tail.length := Nat.pos_of_ne_zero (by simpa using hne)
    rw [String.length_append]
    omega

end Writing

end Synopsis.Path
