import Synopsis.Proofs.TreeFile.Exact

/-!
# Where the diagnostics of a failed load point

The numbers in a tree file may be anything, and diagnostics are shown against a text. A text that cannot
be read gets one diagnostic at a place in the JSON text; a file with flaws gets the ranges of its entries
or of its nodes, brought into the text of the file. Whichever of the three finds something, the report
is not empty and every range in it has its ends in order and within the text that comes with it.
-/

namespace Synopsis

/-- Whether a range has its ends in order and lies within a text of the given length. -/
def Range.Within (range : Range) (length : Nat) : Prop :=
  range.start ≤ range.stop ∧ range.stop ≤ length

/-- Any range lies within a text once it is brought into it. -/
theorem Range.within_clampTo (range : Range) (length : Nat) : (range.clampTo length).Within length := by
  rw [Within, clampTo]
  dsimp only
  omega

/-- Whatever line and column a fault is reported at, it points at a place in the text or at its end. -/
theorem Text.offsetOf_le_byteLength (text : List Char) (place : LineColumn) :
    offsetOf text place ≤ byteLength text :=
  Nat.min_le_right _ _

/-- The diagnostic of a flawed entry points into the text. -/
theorem EntryProblem.within_diagnostic (length : Nat) (problem : EntryProblem) :
    (problem.diagnostic length).range.Within length := by
  cases problem with
  | unknownKind name range => exact range.within_clampTo length
  | inverted name range => exact range.within_clampTo length

/-- The diagnostic of a misplaced node points into the text. -/
theorem LayoutProblem.within_diagnostic (length : Nat) (problem : LayoutProblem) :
    (problem.diagnostic length).range.Within length := by
  cases problem with
  | unmapped kind range size => exact range.within_clampTo length
  | outsideParent kind range parent outer => exact range.within_clampTo length
  | overlapsSibling kind range sibling => exact range.within_clampTo length

/-- Whether a report has a diagnostic, and all of them point into the text that comes with it. -/
structure LoadReport.Pointing (report : LoadReport) : Prop where
  nonempty : report.diagnostics ≠ []
  within : ∀ diagnostic ∈ report.diagnostics,
    diagnostic.range.Within (Text.byteLength report.source.toList)

/-- Problems whose diagnostics point into a text make a report on it. -/
theorem LoadReport.pointing_of_problems {α : Type} (name text : String) {problems : List α}
    {diagnostic : α → Diagnostic} (hsome : problems ≠ [])
    (hwithin : ∀ problem, (diagnostic problem).range.Within (Text.byteLength text.toList)) :
    Pointing ⟨name, text, problems.map diagnostic⟩ where
  nonempty hnil := hsome (List.map_eq_nil_iff.mp hnil)
  within := by
    intro shown hshown
    obtain ⟨problem, -, rfl⟩ := List.mem_map.mp hshown
    exact hwithin problem

/-- A file that is not loaded is rejected with a report on its own text. -/
theorem TreeFile.exists_report_of_load {file : TreeFile} {error : LoadError}
    (h : file.load = .error error) :
    ∃ report : LoadReport, error = .rejected report ∧ report.Pointing ∧
      report.sourceName = file.source.name ∧ report.source = file.source.text := by
  -- The builder is never misused, so only the two checks can have ended the load.
  have hrejected : ∀ misuse, file.load ≠ .error (.misused misuse) := by
    intro misuse hmisused
    rcases file.load_cases with ⟨outline, -, hload, -⟩ | ⟨⟨report, hload⟩, -⟩
    · rw [hload] at hmisused
      cases hmisused
    · rw [hload] at hmisused
      cases hmisused
  unfold load at h
  split at h
  · next hentries =>
    split at h
    · next misuse hassemble =>
      refine absurd ?_ (hrejected misuse)
      rw [load, hentries, hassemble]
    · split at h
      · cases h
      · next hlayout =>
        cases h
        exact ⟨_, rfl, LoadReport.pointing_of_problems _ _ hlayout
          (LayoutProblem.within_diagnostic file.source.length), rfl, rfl⟩
  · next hentries =>
    cases h
    exact ⟨_, rfl, LoadReport.pointing_of_problems _ _ hentries
      (EntryProblem.within_diagnostic file.source.length), rfl, rfl⟩

namespace Tree

/-- A text that cannot be read is rejected with a report on that text, at whatever line and column the fault is
reported. -/
theorem pointing_of_read (text name : String) (fault : TreeFile.ReadFault) :
    LoadReport.Pointing ⟨name, text, [TreeFile.readingDiagnostic text fault]⟩ where
  nonempty := List.cons_ne_nil _ _
  within := by
    intro shown hshown
    rw [List.mem_singleton.mp hshown]
    exact ⟨Nat.le_refl _, Text.offsetOf_le_byteLength _ _⟩

/-- Whatever decoder is used, and whatever line and column it reports, JSON text that gives no tree is rejected
with at least one diagnostic, and each of them has its ends in order within the text of the report. That text
is the JSON text if no file could be read from it and the text of the file otherwise. Bringing a range into a
text never meets bounds out of order. -/
theorem parse_failure_points_into_source {decode : TreeFile.Decoder} {json name : String}
    {error : LoadError} (h : parseWith decode json name = .error error) :
    (∃ report : LoadReport, error = .rejected report ∧ report.Pointing ∧
      ((∃ fault, decode json = .error fault ∧ report.sourceName = name ∧ report.source = json) ∨
        ∃ file, decode json = .ok file ∧ report.sourceName = file.source.name ∧
          report.source = file.source.text)) ∧
      ∀ (range : Range) (length : Nat),
        range.clampChecked? length = some (range.clampTo length) := by
  refine ⟨?_, Range.clampChecked?_eq⟩
  rw [parseWith] at h
  cases hread : decode json with
  | error fault =>
    rw [hread] at h
    cases h
    exact ⟨_, rfl, pointing_of_read json name fault, Or.inl ⟨fault, rfl, rfl, rfl⟩⟩
  | ok file =>
    rw [hread] at h
    obtain ⟨report, hrejected, hpointing, hname, hsource⟩ := TreeFile.exists_report_of_load h
    exact ⟨report, hrejected, hpointing, Or.inr ⟨file, rfl, hname, hsource⟩⟩

/-- An unknown kind from the greatest offset down to the middle of the only letter, and JSON text that
ends too early. -/
theorem parse_failure_points_into_letter :
    let inverted := "[\"a.ts\",\"é\",[\"Bogus\",4294967295,1]]"
    let torn := "[\"a.ts\",\n"
    (∃ report : LoadReport, parse inverted "tree.json" = .error (.rejected report) ∧
        report.Pointing ∧ report.source = "é" ∧
        report.diagnostics.map Diagnostic.range = [⟨1, 2⟩, ⟨1, 2⟩]) ∧
      ∃ report : LoadReport, parse torn "tree.json" = .error (.rejected report) ∧
        report.Pointing ∧ report.source = torn := by
  intro inverted torn
  constructor
  · have hparse : parse inverted "tree.json" = .error (.rejected ⟨"a.ts", "é",
        [⟨"unknown node kind 'Bogus'", ⟨1, 2⟩,
            ["kind names are case-sensitive, e.g. 'ClassDeclaration'"], none⟩,
          ⟨"Bogus ends at 1 before it starts at 4294967295", ⟨1, 2⟩, [], none⟩]⟩) := by
      decide +kernel
    obtain ⟨⟨report, hreport, hpointing, -⟩, -⟩ := parse_failure_points_into_source hparse
    cases hreport
    exact ⟨_, hparse, hpointing, rfl, rfl⟩
  · have hparse : parse torn "tree.json" = .error (.rejected ⟨"tree.json", torn,
        [⟨"invalid tree file: EOF while parsing a value at line 2 column 0", ⟨9, 9⟩, [], none⟩]⟩) := by
      decide +kernel
    obtain ⟨⟨report, hreport, hpointing, -⟩, -⟩ := parse_failure_points_into_source hparse
    cases hreport
    exact ⟨_, hparse, hpointing, rfl⟩

end Tree

end Synopsis
