import Synopsis.TreeFile.Reading
import Synopsis.Proofs.Tree.Arena
import Synopsis.Proofs.Tree.Placement
import Synopsis.Proofs.TreeFile.Calls

/-!
# Plain summaries of loaded trees

Loading a tree file checks that the ranges nest, that siblings follow one another, and that every node
with source text covers whole characters. The ends of synthetic nodes are not checked against the text,
yet composition cuts the text there. So a plain summary of a loaded node is its collapsed text if the
synthetic nodes below it start and end between characters, and a synthetic end inside a character loses
text.
-/

namespace Synopsis

/-- A loaded tree stores an outline and has neither inverted ranges nor layout problems. -/
theorem TreeFile.laidOut_of_load {file : TreeFile} {tree : Tree} (h : file.load = .ok tree) :
    tree.LaidOut ∧ ∃ outline : Outline, outline.Fills tree.nodes := by
  unfold TreeFile.load at h
  split at h
  · split at h
    · contradiction
    · next built hassemble =>
      split at h
      · next hproblems =>
        cases h
        rw [TreeFile.assemble_eq_run] at hassemble
        obtain ⟨builder, hrun, hfinish⟩ := (bind_eq_ok_iff _ _ _).mp hassemble
        have hordered := (Builder.rangesOrdered_new file.source).run hrun
        rw [Builder.RangesOrdered, ← Builder.nodes_of_finish hfinish] at hordered
        obtain ⟨outline, -, rfl⟩ := Draft.exists_whole_of_finish hrun hfinish
        exact ⟨⟨hordered, hproblems⟩, outline, outline.fills_rows⟩
      · contradiction
  · contradiction

namespace Tree

/-- A tree read from a text stores an outline and has neither inverted ranges nor layout problems, whatever
reads it. -/
theorem laidOut_of_parseWith {decode : TreeFile.Decoder} {text name : String} {tree : Tree}
    (h : parseWith decode text name = .ok tree) :
    tree.LaidOut ∧ ∃ outline : Outline, outline.Fills tree.nodes := by
  unfold parseWith at h
  split at h
  · contradiction
  · exact TreeFile.laidOut_of_load h

/-- A node that has a text is not synthetic, and the text is the slice that its range covers. -/
theorem slice_of_text {source : Source} {node : Node} {text : String}
    (h : node.text source = .ok text) :
    node.synthetic = false ∧ text = Text.sliceOrEmpty source.text node.range.start node.range.stop := by
  unfold Node.text at h
  split at h
  · contradiction
  · next hmapped =>
    refine ⟨by simpa using hmapped, ?_⟩
    split at h
    · next piece hslice =>
      cases h
      rw [Text.sliceOrEmpty]
      change Text.slice? _ _ _ = _ at hslice
      rw [hslice, Option.getD_some]
    · contradiction

/-- Whether the synthetic nodes at and below a node start and end at boundaries of the text. -/
def Aligned (tree : Tree) (id : Nat) : Prop :=
  ∀ row ∈ tree.rowsFrom id, row.synthetic = true →
    Text.IsBoundary tree.source.text row.range.start ∧ Text.IsBoundary tree.source.text row.range.stop

/-- Whether a node at or below another starts or ends inside a character. -/
def Tears (tree : Tree) (id : Nat) (c : Char) : Prop :=
  ∃ row ∈ tree.rowsFrom id, ∃ before, Text.Splits tree.source.text before c row.range.start ∨
    Text.Splits tree.source.text before c row.range.stop

/-- The rows at and below a node are in the table. -/
theorem exists_of_mem_rowsFrom {tree : Tree} {id : Nat} {row : Node} (h : row ∈ tree.rowsFrom id) :
    ∃ number : Nat, tree.nodes[number]? = some row := by
  obtain ⟨number, -, hrow⟩ := List.mem_filterMap.mp h
  exact ⟨number, hrow⟩

variable {tree : Tree} {id : Nat} {found : Outline} {parent : Option Nat}

/-- Synthetic nodes are aligned exactly when composition meets no end inside a character. -/
theorem aligned_iff_cuts (hlaid : tree.LaidOut) (hrows : tree.rowsFrom id = found.rows id parent) :
    tree.Aligned id ↔
      ∀ cut ∈ (found.host tree.source).cuts, Text.IsBoundary tree.source.text cut := by
  constructor
  · intro haligned cut hcut
    obtain ⟨row, hrow, hend⟩ := (found.mem_cuts_host tree.source id parent cut).mp hcut
    rw [← hrows] at hrow
    have hbounds : Text.IsBoundary tree.source.text row.range.start ∧
        Text.IsBoundary tree.source.text row.range.stop := by
      cases hsynthetic : row.synthetic with
      | true => exact haligned row hrow hsynthetic
      | false =>
        obtain ⟨number, hnumber⟩ := exists_of_mem_rowsFrom hrow
        exact Node.isBoundary_of_ownProblems (hlaid.problemsAt_eq hnumber).1 hsynthetic
    rcases hend with rfl | rfl
    · exact hbounds.1
    · exact hbounds.2
  · intro hcuts row hrow _
    rw [hrows] at hrow
    exact ⟨hcuts _ ((found.mem_cuts_host tree.source id parent _).mpr ⟨row, hrow, Or.inl rfl⟩),
      hcuts _ ((found.mem_cuts_host tree.source id parent _).mpr ⟨row, hrow, Or.inr rfl⟩)⟩

/-- A character that is torn at or below a node has an end inside it that composition meets. -/
theorem exists_cut_of_tears (hrows : tree.rowsFrom id = found.rows id parent) {c : Char}
    (h : tree.Tears id c) :
    ∃ cut ∈ (found.host tree.source).cuts, ∃ before, Text.Splits tree.source.text before c cut := by
  obtain ⟨row, hrow, before, hsplits⟩ := h
  rw [hrows] at hrow
  rcases hsplits with hsplits | hsplits
  · exact ⟨_, (found.mem_cuts_host tree.source id parent _).mpr ⟨row, hrow, Or.inl rfl⟩, before, hsplits⟩
  · exact ⟨_, (found.mem_cuts_host tree.source id parent _).mpr ⟨row, hrow, Or.inr rfl⟩, before, hsplits⟩

/-- In a loaded tree, whatever decoder read it, take a node with a text and without sealed nodes at or below
it. Its plain summary is what its unmodified spans write, collapsed, and they write its text exactly when the
synthetic nodes are aligned. The summary is then the collapsed text, and it is not where a character that is
not blank is torn. -/
theorem plain_summary_of_parse {decode : TreeFile.Decoder} {json name : String} {tree : Tree}
    (hparse : parseWith decode json name = .ok tree) {id : Nat} {node : Node}
    (hnode : tree.nodes[id]? = some node) (hopen : ∀ row ∈ tree.rowsFrom id, row.sealed = false)
    {text : String} (htext : node.text tree.source = .ok text) :
    ∃ host spans, tree.host? id = some host ∧ SpanTree.build host = .ok spans ∧
      host.summary tree.source.text Rules.empty =
        .ok (Text.collapse (spans.compose tree.source.text)) ∧
      (spans.compose tree.source.text = text ↔ tree.Aligned id) ∧
      (tree.Aligned id → host.summary tree.source.text Rules.empty = .ok (Text.collapse text)) ∧
      ∀ c, Text.isBlank c = false → tree.Tears id c →
        host.summary tree.source.text Rules.empty ≠ .ok (Text.collapse text) := by
  obtain ⟨hlaid, outline, hfills⟩ := laidOut_of_parseWith hparse
  obtain ⟨found, hstored, hlabel, hhost, hrows⟩ := hfills.exists_at hnode
  obtain ⟨hmapped, rfl⟩ := slice_of_text htext
  have hrange : (found.host tree.source).range = node.range := by
    cases found with
    | node label children => exact congrArg Label.range hlabel
  have hends := Node.isBoundary_of_ownProblems (hlaid.problemsAt_eq hnode).1 hmapped
  have hspread : (found.host tree.source).Spread tree.source.text :=
    ⟨Outline.ascending_of_stored hlaid found id _ hstored, by rw [hrange]; exact hends.1,
      by rw [hrange]; exact hends.2⟩
  have hlisted : (found.host tree.source).Listed :=
    found.listed_host tree.source id node.parent (by rw [← hrows]; exact hopen)
  have hsummary := Host.summary_empty tree.source.text _ hlisted
  have hwhole := SpanTree.compose_ofHost_eq_iff hspread
  rw [hrange, ← aligned_iff_cuts hlaid hrows] at hwhole
  refine ⟨_, _, hhost, (SpanTree.build_eq_ok_iff _ _).mpr ⟨hlisted, rfl⟩, hsummary, hwhole, ?_, ?_⟩
  · intro haligned
    rw [hsummary, hwhole.mpr haligned]
  · intro c hc htears hsame
    obtain ⟨cut, hcut, before, hsplits⟩ := exists_cut_of_tears hrows htears
    have hlost := SpanTree.collapse_compose_ofHost_ne hspread hcut hsplits hc
    rw [hsummary, Except.ok.injEq] at hsame
    rw [hrange] at hlost
    exact hlost hsame

/-- A file with two letters of two bytes each. The first has a synthetic node in its middle, the second
one at its start. -/
def twoLetters : String :=
  "[\"a.ts\",\"é ü\",[\"SourceFile\",0,5,[[\"TypeReference\",0,2,[[\"Identifier\",1,1,[],true]]]," ++
    "[\"TypeReference\",3,5,[[\"Identifier\",3,3,[],true]]]]]]"

/-- The tree of the two letters. -/
def twoLettersTree : Tree :=
  { source := ⟨"a.ts", "é ü"⟩
    nodes := #[⟨.sourceFile, ⟨0, 5⟩, none, [1, 3], false, false⟩,
      ⟨.typeReference, ⟨0, 2⟩, some 0, [2], false, false⟩,
      ⟨.identifier, ⟨1, 1⟩, some 1, [], true, false⟩,
      ⟨.typeReference, ⟨3, 5⟩, some 0, [4], false, false⟩,
      ⟨.identifier, ⟨3, 3⟩, some 3, [], true, false⟩]
    root := 0 }

/-- The file with the two letters is loaded. -/
theorem parse_twoLetters : parse twoLetters "tree.json" = .ok twoLettersTree := by
  have hloaded : (parse twoLetters "tree.json").toOption = some twoLettersTree := by decide +kernel
  cases hparse : parse twoLetters "tree.json" with
  | error fault => rw [hparse] at hloaded; cases hloaded
  | ok tree =>
    rw [hparse] at hloaded
    exact congrArg Except.ok (Option.some.inj hloaded)

/-- The letter with a synthetic node in its middle is lost, the other one is not. -/
theorem plain_summary_twoLetters :
    parse twoLetters "tree.json" = .ok twoLettersTree ∧
      (∀ row ∈ twoLettersTree.rowsFrom 0, row.sealed = false) ∧
      (∃ host, twoLettersTree.host? 0 = some host ∧
        host.summary "é ü" Rules.empty ≠ .ok (Text.collapse "é ü")) ∧
      ∃ host, twoLettersTree.host? 3 = some host ∧
        host.summary "é ü" Rules.empty = .ok (Text.collapse "ü") := by
  have hopen : ∀ row ∈ twoLettersTree.rowsFrom 0, row.sealed = false := by decide
  have htears : twoLettersTree.Tears 0 'é' := by
    refine ⟨⟨.identifier, ⟨1, 1⟩, some 1, [], true, false⟩, by decide, [], Or.inl ⟨?_, ?_, ?_⟩⟩
    · decide
    · decide
    · decide
  have haligned : twoLettersTree.Aligned 3 := by
    unfold Aligned
    decide
  obtain ⟨whole, -, hwhole, -, -, -, -, htorn⟩ := plain_summary_of_parse parse_twoLetters
    (show twoLettersTree.nodes[0]? = some _ from rfl) hopen rfl
  obtain ⟨second, -, hsecond, -, -, -, hintact, -⟩ := plain_summary_of_parse parse_twoLetters
    (show twoLettersTree.nodes[3]? = some _ from rfl) (by decide) rfl
  exact ⟨parse_twoLetters, hopen, ⟨whole, hwhole, htorn 'é' (by decide) htears⟩,
    second, hsecond, hintact haligned⟩

/-- A loaded tree without sealed nodes whose root loses a letter of its text in the plain summary. -/
theorem plain_summary_loses_letter :
    ∃ tree node host, parse twoLetters "tree.json" = .ok tree ∧ tree.nodes[tree.root]? = some node ∧
      (∀ row ∈ tree.rowsFrom tree.root, row.sealed = false) ∧ node.text tree.source = .ok "é ü" ∧
      tree.host? tree.root = some host ∧
      host.summary tree.source.text Rules.empty = .ok "ü" ∧ Text.collapse "é ü" = "é ü" := by
  refine ⟨twoLettersTree, _, _, parse_twoLetters, rfl, ?_, rfl, rfl, ?_, ?_⟩
  · decide
  · rw [Host.summary, Host.summaryWith_eq_nested]
    decide +kernel
  · decide

end Tree

end Synopsis
