import Mathlib.Data.List.Forall2
import Synopsis.Dump
import Synopsis.Proofs.Host.Reach
import Synopsis.Proofs.Kind
import Synopsis.Proofs.Text.Words

/-!
# Reading a dump back

A dump is one line for each node within reach, in the order of a depth-first walk. No text of a node can
break a line, since the only blanks of a preview are spaces, nor can it feign an indentation or a name,
since it stands behind the first colon of its line. So the lines give back the depth and the tag of every
node, and a list of depths in pre-order leaves only one way to hang the nodes below each other.
-/

namespace Synopsis.Host

/-- What a dump shows of a node's text. -/
def shown (width : Nat) (node : Host) : String :=
  match node.text with
  | .ok text => Text.preview text width
  | .error _ => textUnavailable

/-- The spaces in front of a line at some depth. -/
def indentation (depth : Nat) : List Char := List.replicate (2 * depth) ' '

/-- The line of a node at some depth, without its end. -/
def line (depth width : Nat) (node : Host) : List Char :=
  indentation depth ++ node.kindName.toList ++ ": [".toList ++ (node.shown width).toList ++ "]".toList

section Line

/-- A line of a dump is the line of its node and a line break. -/
theorem toList_dumpLine (depth width : Nat) (node : Host) :
    (node.dumpLine (String.ofList (indentation depth)) width).toList = node.line depth width ++ ['\n'] := by
  have hparts : node.dumpLine (String.ofList (indentation depth)) width =
      String.ofList (indentation depth) ++ node.kindName ++ ": [" ++ node.shown width ++ "]\n" := rfl
  rw [hparts]
  simp [line]

/-- The only blanks of what a dump shows of a text are spaces. -/
theorem blank_of_mem_shown {width : Nat} {node : Host} {c : Char} (h : c ∈ (node.shown width).toList)
    (hblank : Text.isBlank c = true) : c = ' ' := by
  unfold shown at h
  split at h
  · next text =>
    have hellipsis : ∀ c ∈ Text.ellipsis.toList, Text.isBlank c = false :=
      List.forall_iff_forall_mem.mp (by decide)
    rw [Text.preview] at h
    split at h
    · rw [String.toList_ofList] at h
      exact Text.blank_of_mem_collapse h hblank
    · rw [String.toList_append, String.toList_ofList, List.mem_append] at h
      rcases h with h | h
      · exact Text.blank_of_mem_collapse (List.mem_of_mem_take h) hblank
      · rw [hellipsis c h] at hblank
        contradiction
  · have hunavailable : ∀ c ∈ textUnavailable.toList, Text.isBlank c = true → c = ' ' :=
      List.forall_iff_forall_mem.mp (by decide)
    exact hunavailable c h hblank

/-- No line has a line break in it. -/
theorem newline_notMem_line (depth width : Nat) (node : Host) : '\n' ∉ node.line depth width := by
  have hblank : Text.isBlank '\n' = true := by decide
  simp only [line, List.mem_append, not_or]
  refine ⟨⟨⟨⟨?_, ?_⟩, by decide⟩, ?_⟩, by decide⟩
  · intro h
    exact absurd (List.eq_of_mem_replicate h) (by decide)
  · intro h
    rw [(Kind.plain_of_mem_tagName h).1] at hblank
    contradiction
  · intro h
    exact absurd (blank_of_mem_shown h hblank) (by decide)

/-- Spaces in front of a text without spaces can be counted. -/
theorem replicate_space_append_inj {count count' : Nat} {text text' : List Char} (hspace : ' ' ∉ text)
    (hspace' : ' ' ∉ text')
    (h : List.replicate count ' ' ++ text = List.replicate count' ' ' ++ text') :
    count = count' ∧ text = text' := by
  induction count generalizing count' with
  | zero =>
    cases count' with
    | zero => exact ⟨rfl, h⟩
    | succ count' =>
      rw [List.replicate_zero, List.nil_append] at h
      exact absurd (h ▸ List.mem_cons_self) hspace
  | succ count ih =>
    cases count' with
    | zero =>
      rw [List.replicate_zero, List.nil_append] at h
      exact absurd (h ▸ List.mem_cons_self) hspace'
    | succ count' =>
      obtain ⟨rfl, htext⟩ := ih (List.cons.inj h).2
      exact ⟨rfl, htext⟩

/-- A line gives back the depth and the tag of its node, whatever text it shows. -/
theorem line_inj {depth depth' width width' : Nat} {node node' : Host}
    (h : node.line depth width = node'.line depth' width') : depth = depth' ∧ node.tag = node'.tag := by
  have hsplit (depth width : Nat) (node : Host) :
      (Text.splitWhere (· == ':') (node.line depth width)).head? =
        some (indentation depth ++ node.kindName.toList) := by
    have hfront : ∀ c ∈ indentation depth ++ node.kindName.toList, (c == ':') = false := by
      intro c hc
      rw [beq_eq_false_iff_ne]
      rcases List.mem_append.mp hc with hc | hc
      · rw [List.eq_of_mem_replicate hc]
        decide
      · exact (Kind.plain_of_mem_tagName hc).2
    have hline : node.line depth width = (indentation depth ++ node.kindName.toList) ++
        ':' :: (" [".toList ++ (node.shown width).toList ++ "]".toList) := by
      simp [line]
    rw [hline, Text.splitWhere_append_cons (by decide), Text.splitWhere_of_forall hfront]
    rfl
  have hspace (node : Host) : ' ' ∉ node.kindName.toList := by
    intro hmem
    have hblank := (Kind.plain_of_mem_tagName hmem).1
    rw [Text.isBlank_space] at hblank
    contradiction
  have hfront := hsplit depth width node
  rw [h, hsplit depth' width' node', Option.some.injEq] at hfront
  obtain ⟨hdepth, hname⟩ := replicate_space_append_inj (hspace node') (hspace node) hfront
  exact ⟨by omega, Kind.tagName_injective (String.toList_inj.mp hname.symm)⟩

end Line

section Walk

/-- Two more spaces make an indentation one level deeper. -/
theorem indentation_append (depth : Nat) :
    String.ofList (indentation depth) ++ "  " = String.ofList (indentation (depth + 1)) := by
  have hspaces : indentation (depth + 1) = indentation depth ++ "  ".toList := by
    rw [indentation, Nat.mul_add, List.replicate_add]
    rfl
  rw [hspaces, String.ofList_append, String.ofList_toList]

mutual

/-- A dump is the lines of the nodes within reach, each as deep as its path is long. -/
theorem toList_dump (host : Host) (depth width : Nat) :
    (host.dump (String.ofList (indentation depth)) width).toList =
      host.places.flatMap fun place => place.2.line (depth + place.1.length) width ++ ['\n'] := by
  cases host with
  | node tag range text withheld offspring =>
    cases withheld with
    | some refusal =>
      rw [dump, places, toList_dumpLine, List.flatMap_singleton]
      rfl
    | none =>
      rw [dump, places, String.toList_append, toList_dumpLine, List.flatMap_cons, indentation_append,
        toList_dumpAll offspring 0 depth width]
      rfl

/-- The dump of consecutive children is the lines of the nodes within reach of them. -/
theorem toList_dumpAll (hosts : List Host) (first depth width : Nat) :
    (dumpAll (String.ofList (indentation (depth + 1))) width hosts).toList =
      (placesFrom first hosts).flatMap
        fun place => place.2.line (depth + place.1.length) width ++ ['\n'] := by
  cases hosts with
  | nil => rfl
  | cons host hosts =>
    rw [dumpAll, placesFrom, String.toList_append, toList_dump host (depth + 1) width,
      toList_dumpAll hosts (first + 1) depth width, List.flatMap_append, List.flatMap_map]
    simp only [List.length_cons, Nat.add_assoc, Nat.add_comm 1]

end

/-- Lines without line breaks, each ended by one, are read back by splitting at line breaks. -/
theorem splitWhere_flatMap_lines {α : Type} (entries : List α) (lineOf : α → List Char)
    (hline : ∀ entry ∈ entries, '\n' ∉ lineOf entry) :
    Text.splitWhere (· == '\n') (entries.flatMap fun entry => lineOf entry ++ ['\n']) =
      entries.map lineOf ++ [[]] := by
  induction entries with
  | nil => rfl
  | cons entry rest ih =>
    obtain ⟨hentry, hrest⟩ := List.forall_mem_cons.mp hline
    have hplain : ∀ c ∈ lineOf entry, (c == '\n') = false := by
      intro c hc
      rw [beq_eq_false_iff_ne]
      rintro rfl
      exact hentry hc
    rw [List.flatMap_cons, List.append_assoc, List.singleton_append,
      Text.splitWhere_append_cons (by decide), Text.splitWhere_of_forall hplain, ih hrest]
    rfl

/-- The lines of a dump are those of the nodes within reach, in the order of the walk. -/
theorem lines_dump (host : Host) (width : Nat) :
    Text.splitWhere (· == '\n') (host.dump "" width).toList =
      host.places.map (fun place => place.2.line place.1.length width) ++ [[]] := by
  have hdump := host.toList_dump 0 width
  simp only [Nat.zero_add] at hdump
  change (host.dump "" width).toList = _ at hdump
  rw [hdump]
  exact splitWhere_flatMap_lines _ _ fun place _ => newline_notMem_line _ _ _

end Walk

section Hanging

/-- The depths and tags of a walk from a given depth on. -/
def levels (depth : Nat) (walk : List (List Nat × Host)) : List (Nat × Nat) :=
  walk.map fun place => (depth + place.1.length, place.2.tag)

/-- The children of a node, or none if they are not listed. -/
def listed (host : Host) : List Host := host.children.toOption.getD []

/-- A walk meets the root first and then the nodes below its children. -/
theorem places_eq (host : Host) : host.places = ([], host) :: placesFrom 0 host.listed := by
  cases host with
  | node tag range text withheld offspring =>
    cases withheld with
    | some refusal => simp [places, listed, children, placesFrom, Except.toOption]
    | none => simp [places, listed, children, Except.toOption]

/-- A path from a node goes on from one of its children. -/
theorem reach?_cons (host : Host) (index : Nat) (path : List Nat) :
    host.reach? (index :: path) = host.listed[index]?.bind fun child => child.reach? path := by
  rw [reach?, listed]
  cases host.children <;> simp [Except.toOption]

/-- The levels of a tree are that of its root and those below it. -/
theorem levels_places (host : Host) (depth : Nat) :
    levels depth host.places = (depth, host.tag) :: levels depth (placesFrom 0 host.listed) := by
  rw [places_eq]
  rfl

/-- The levels of consecutive children are one deeper than those of their parent. -/
theorem levels_placesFrom_cons (host : Host) (hosts : List Host) (depth first : Nat) :
    levels depth (placesFrom first (host :: hosts)) =
      levels (depth + 1) host.places ++ levels depth (placesFrom (first + 1) hosts) := by
  simp only [levels, placesFrom, List.map_append, List.map_map, Function.comp_def, List.length_cons,
    Nat.add_assoc, Nat.add_comm 1]

/-- The first of the levels behind some children is not deeper than they are. -/
theorem le_of_head_levels {hosts : List Host} {depth first : Nat} {rest : List (Nat × Nat)}
    (hrest : ∀ level ∈ rest.head?, level.1 ≤ depth) :
    ∀ level ∈ (levels depth (placesFrom first hosts) ++ rest).head?, level.1 ≤ depth + 1 := by
  intro level hlevel
  cases hosts with
  | nil => exact Nat.le_succ_of_le (hrest level hlevel)
  | cons host hosts =>
    rw [levels_placesFrom_cons, levels_places] at hlevel
    obtain rfl : (depth + 1, host.tag) = level := Option.some.inj hlevel
    exact Nat.le_refl _

/-- Levels that start with the root of a child are deeper than their parent. -/
theorem levels_cons_ne {host : Host} {hosts : List Host} {depth first : Nat}
    {behind rest : List (Nat × Nat)} (hrest : ∀ level ∈ rest.head?, level.1 ≤ depth) :
    levels depth (placesFrom first (host :: hosts)) ++ behind ≠ rest := by
  rintro rfl
  rw [levels_placesFrom_cons, levels_places] at hrest
  have hle : depth + 1 ≤ depth := hrest (depth + 1, host.tag) rfl
  omega

/-- Whether two trees have the same visible nodes in the same places, with the same tags. -/
def SameTags (host other : Host) : Prop :=
  ∀ path, (host.reach? path).map tag = (other.reach? path).map tag

/-- Whether consecutive trees have the same visible nodes in the same places, with the same tags. -/
def SameTagsAll (hosts others : List Host) : Prop :=
  ∀ (index : Nat) (path : List Nat),
    (hosts[index]?.bind (reach? · path)).map tag = (others[index]?.bind (reach? · path)).map tag

mutual

/-- The levels of a tree, with no deeper level behind them, give back the tags of its visible nodes. -/
theorem sameTags_of_levels (host other : Host) (depth : Nat) (rest rest' : List (Nat × Nat))
    (hrest : ∀ level ∈ rest.head?, level.1 ≤ depth) (hrest' : ∀ level ∈ rest'.head?, level.1 ≤ depth)
    (h : levels depth host.places ++ rest = levels depth other.places ++ rest') :
    host.SameTags other ∧ rest = rest' := by
  have hchildren : SameTagsAll host.listed other.listed ∧ rest = rest' := by
    rw [levels_places, levels_places] at h
    have hbelow := (List.cons.inj h).2
    cases host with
    | node tag range text withheld offspring =>
      cases withheld with
      | some refusal => exact sameTagsAll_of_levels [] other.listed depth 0 0 rest rest' hrest hrest' hbelow
      | none => exact sameTagsAll_of_levels offspring other.listed depth 0 0 rest rest' hrest hrest' hbelow
  refine ⟨fun path => ?_, hchildren.2⟩
  cases path with
  | nil =>
    rw [levels_places, levels_places] at h
    exact congrArg some (Prod.mk.inj (List.cons.inj h).1).2
  | cons index path =>
    rw [reach?_cons, reach?_cons]
    exact hchildren.1 index path

/-- The levels of consecutive trees, with none of their depth behind them, give back the tags of their
visible nodes. -/
theorem sameTagsAll_of_levels (hosts others : List Host) (depth first first' : Nat)
    (rest rest' : List (Nat × Nat)) (hrest : ∀ level ∈ rest.head?, level.1 ≤ depth)
    (hrest' : ∀ level ∈ rest'.head?, level.1 ≤ depth)
    (h : levels depth (placesFrom first hosts) ++ rest =
      levels depth (placesFrom first' others) ++ rest') :
    SameTagsAll hosts others ∧ rest = rest' := by
  cases hosts with
  | nil =>
    cases others with
    | nil => exact ⟨fun _ _ => rfl, h⟩
    | cons other others => exact absurd h.symm (levels_cons_ne hrest)
  | cons host hosts =>
    cases others with
    | nil => exact absurd h (levels_cons_ne hrest')
    | cons other others =>
      rw [levels_placesFrom_cons, levels_placesFrom_cons, List.append_assoc, List.append_assoc] at h
      -- What follows the levels of a tree is not deeper than its root, so none of it can be one more child.
      obtain ⟨hfirst, hbehind⟩ := sameTags_of_levels host other (depth + 1) _ _
        (le_of_head_levels hrest) (le_of_head_levels hrest') h
      obtain ⟨hothers, heq⟩ := sameTagsAll_of_levels hosts others depth _ _ rest rest' hrest hrest' hbehind
      refine ⟨fun index path => ?_, heq⟩
      cases index with
      | zero => exact hfirst path
      | succ index => exact hothers index path

end

end Hanging

/-- Equal dumps are dumps of trees with the same visible nodes and tags, whatever the widths are. -/
theorem sameTags_of_dump_eq {host other : Host} {width otherWidth : Nat}
    (h : host.dump "" width = other.dump "" otherWidth) : host.SameTags other := by
  have hlines := host.lines_dump width
  rw [h, other.lines_dump otherWidth] at hlines
  have hplaces := List.append_cancel_right hlines
  have hlevels : levels 0 other.places = levels 0 host.places := by
    rw [← List.forall₂_eq_eq_eq, levels, levels, List.forall₂_map_left_iff, List.forall₂_map_right_iff]
    rw [← List.forall₂_eq_eq_eq, List.forall₂_map_left_iff, List.forall₂_map_right_iff] at hplaces
    refine hplaces.imp fun place place' hline => ?_
    obtain ⟨hdepth, htag⟩ := line_inj hline
    rw [hdepth, htag]
  exact (sameTags_of_levels host other 0 [] [] (by simp) (by simp) (by simpa using hlevels.symm)).1

/-- A dump has one line for each node within reach and no other line break, in the order of a depth-first
walk, and it gives back the shape of the visible tree and every tag in it, whatever the texts and the
widths are. -/
theorem dump_reads_back (host : Host) (width : Nat) :
    Text.splitWhere (· == '\n') (host.dump "" width).toList =
        host.places.map (fun place => place.2.line place.1.length width) ++ [[]] ∧
      (host.dump "" width).toList.count '\n' = host.places.length ∧
      (∀ path node, (path, node) ∈ host.places ↔ host.reach? path = some node) ∧
      (host.places.Pairwise fun before after => before.1 < after.1) ∧
      ∀ (other : Host) (otherWidth : Nat), host.dump "" width = other.dump "" otherWidth →
        ∀ path, (host.reach? path).map tag = (other.reach? path).map tag := by
  have hlines := host.lines_dump width
  refine ⟨hlines, ?_, host.mem_places_iff, host.pairwise_places, ?_⟩
  · have hlength := congrArg List.length hlines
    rw [Text.length_splitWhere, List.length_append, List.length_map] at hlength
    exact Nat.succ.inj hlength
  · intro other otherWidth h
    exact sameTags_of_dump_eq h

/-- A text that feigns the line of a child and is cut, over a child that hides another one, is dumped like
a shorter text over a leaf. -/
theorem dump_reads_back_feigned :
    let host : Host := .node 500 ⟨0, 9⟩ (.ok "a\n  Identifier: [b]\nc") none
      [.node 20 ⟨7, 2⟩ (.error .noSourceMapping) (some .childrenUnavailable)
        [.node 3 ⟨0, 1⟩ (.ok "x") none []]]
    let other : Host := .node 500 ⟨4, 4⟩ (.ok " a Identif...") none
      [.node 20 ⟨0, 0⟩ (.error .noSourceMapping) none []]
    host.dump "" 12 = other.dump "" 100 ∧
      host.dump "" 12 = "Unknown(500): [a Identif...]\n  Identifier: [(error getting text)]\n" ∧
      (host.dump "" 12).toList.count '\n' = host.places.length ∧ host.places.length = 2 ∧
      ∀ path, (host.reach? path).map tag = (other.reach? path).map tag := by
  intro host other
  have hdumps : host.dump "" 12 = other.dump "" 100 := by decide +kernel
  obtain ⟨-, hcount, -, -, hsame⟩ := host.dump_reads_back 12
  exact ⟨hdumps, by decide +kernel, hcount, rfl, hsame other 100 hdumps⟩

end Synopsis.Host
