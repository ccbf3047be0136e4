import Synopsis.Text.Preview
import Synopsis.Proofs.Text.Collapse

/-!
# Narrowing previews

A preview is tidy like the collapsed text it is made from, even where the cut falls behind a space, for
the ellipsis follows there. So a preview of a preview only cuts again, and cutting first to a wide and
then to a narrow width comes to the same as cutting to the narrow width at once.
-/

namespace Synopsis.Text

/-- A tidy text may be cut anywhere if a mark without blanks is put at the cut. -/
theorem Tidy.take_append {text mark : List Char} (h : Tidy text) (count : Nat) (hne : mark ≠ [])
    (hmark : ∀ c ∈ mark, isBlank c = false) : Tidy (text.take count ++ mark) := by
  intro before c after htext hc
  have hnotMem : c ∉ mark := fun hmem => by simp [hmark c hmem] at hc
  -- The blank stands in the part that is kept, so it stands in the whole text too.
  obtain ⟨behind, hkept, rfl⟩ := exists_inside_of_notMem hnotMem htext
  have hwhole : text = before ++ c :: (behind ++ text.drop count) := by
    rw [← List.cons_append, ← List.append_assoc, ← hkept, List.take_append_drop]
  obtain ⟨hspace, hleft, right, hright, hsolid⟩ := h before c _ hwhole hc
  refine ⟨hspace, hleft, ?_⟩
  cases behind with
  | nil => exact ⟨mark.head hne, List.head?_eq_some_head hne, hmark _ (List.head_mem hne)⟩
  | cons d behind => exact ⟨right, hright, hsolid⟩

section Widths

variable (text : String) {width : Nat}

/-- A collapsed text that fits is its own preview. -/
theorem preview_of_le (h : (collapse text).length ≤ width) : preview text width = collapse text := by
  rw [← String.length_toList] at h
  rw [preview, if_pos h, String.ofList_toList]

/-- A collapsed text that does not fit is cut in front of the ellipsis. -/
theorem preview_of_lt (h : width < (collapse text).length) :
    preview text width = String.ofList ((collapse text).toList.take (width - 3)) ++ "..." := by
  rw [← String.length_toList] at h
  rw [preview, if_neg (Nat.not_le_of_lt h)]
  rfl

/-- Texts that collapse alike have the same previews. -/
theorem preview_congr {text other : String} (h : collapse text = collapse other) (width : Nat) :
    preview text width = preview other width := by
  rw [preview, preview, h]

/-- A preview is not changed by collapsing it. -/
theorem collapse_preview (width : Nat) : collapse (preview text width) = preview text width := by
  rcases Nat.lt_or_ge width (collapse text).length with hlt | hle
  · rw [collapse_eq_self_iff, preview_of_lt text hlt, String.toList_append, String.toList_ofList]
    refine (tidy_collapse text).take_append _ (by decide) fun c hc => ?_
    obtain rfl : c = '.' := by simpa using hc
    decide
  · rw [preview_of_le text hle, collapse_collapse]

/-- A text that is cut is as wide as it may be, or as the ellipsis. -/
theorem length_preview_of_lt (h : width < (collapse text).length) :
    (preview text width).length = max width 3 := by
  rw [preview_of_lt text h, String.length_append, String.length_ofList, List.length_take,
    String.length_toList]
  change min (width - 3) (collapse text).length + 3 = max width 3
  omega

/-- A preview is no wider than it may be, or than the ellipsis. -/
theorem length_preview_le (width : Nat) : (preview text width).length ≤ max width 3 := by
  rcases Nat.lt_or_ge width (collapse text).length with hlt | hle
  · exact Nat.le_of_eq (length_preview_of_lt text hlt)
  · rw [preview_of_le text hle]
    omega

end Widths

/-- A preview of a preview that is at least as wide is the preview of the text. -/
theorem preview_preview (text : String) {narrow wide : Nat} (h : narrow ≤ wide) :
    preview (preview text wide) narrow = preview text narrow := by
  rcases Nat.lt_or_ge wide (collapse text).length with hlt | hle
  · have hwide : (collapse (preview text wide)).length = max wide 3 := by
      rw [collapse_preview, length_preview_of_lt text hlt]
    rcases Nat.lt_or_ge narrow (max wide 3) with hcut | hfits
    · -- Both cuts fall into the collapsed text, and the second is the one that remains.
      have hnarrow : narrow < (collapse text).length := by omega
      rw [preview_of_lt _ (hwide ▸ hcut), preview_of_lt text hnarrow, collapse_preview,
        preview_of_lt text hlt, String.toList_append, String.toList_ofList]
      have hkept : narrow - 3 ≤ ((collapse text).toList.take (wide - 3)).length := by
        rw [List.length_take, String.length_toList]
        omega
      rw [List.take_append_of_le_length hkept, List.take_take, Nat.min_eq_left (by omega)]
    · have hsame : narrow = wide := by omega
      subst hsame
      rw [preview_of_le _ (hwide ▸ hfits), collapse_preview]
  · rw [preview_of_le text hle]
    exact preview_congr (collapse_collapse text) narrow

/-- Narrowing a preview is the same as previewing the text at the narrow width, so a preview at any width
is its own preview there. It has no more characters than the width, or than the ellipsis. It is the whole
collapsed text if that fits, and otherwise the start of it with the ellipsis behind. -/
theorem preview_narrows (text : String) (narrow wide : Nat) (h : narrow ≤ wide) :
    preview (preview text wide) narrow = preview text narrow ∧
      ∀ width, preview (preview text width) width = preview text width ∧
        (preview text width).length ≤ max width 3 ∧
        ((collapse text).length ≤ width → preview text width = collapse text) ∧
        (width < (collapse text).length →
          preview text width = String.ofList ((collapse text).toList.take (width - 3)) ++ "...") :=
  ⟨preview_preview text h, fun width =>
    ⟨preview_preview text (Nat.le_refl width), length_preview_le text width, preview_of_le text,
      preview_of_lt text⟩⟩

/-- A first cut behind a space and a second cut in front of it. -/
theorem preview_narrows_across_space :
    5 ≤ 6 ∧ (collapse "né  à\tla mer").length = 11 ∧ preview "né  à\tla mer" 6 = "né ..." ∧
      preview (preview "né  à\tla mer" 6) 5 = preview "né  à\tla mer" 5 ∧
      preview "né  à\tla mer" 11 = collapse "né  à\tla mer" ∧
      preview "né  à\tla mer" 5 = String.ofList ((collapse "né  à\tla mer").toList.take 2) ++ "..." := by
  obtain ⟨hnarrow, hwidths⟩ := preview_narrows "né  à\tla mer" 5 6 (by decide)
  exact ⟨by decide, by decide +kernel, by decide +kernel, hnarrow,
    (hwidths 11).2.2.1 (by decide +kernel), (hwidths 5).2.2.2 (by decide +kernel)⟩

end Synopsis.Text
