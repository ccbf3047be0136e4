import Synopsis.Text.Slice

/-!
# Boundaries and slices

A boundary is an offset at which a text splits into two lists of characters. Cutting succeeds exactly
at boundaries, so a slice exists exactly when its ends are boundaries in order, and neighbouring slices
put together give the slice over both. The byte length of a prefix determines the prefix, because every
character takes at least one byte.
-/

namespace Synopsis.Text

/-- The bytes of two texts in a row are counted separately. -/
@[simp] theorem byteLength_append (left right : List Char) :
    byteLength (left ++ right) = byteLength left + byteLength right := by
  induction left with
  | nil => simp [byteLength]
  | cons c rest ih => simp [byteLength, ih, Nat.add_assoc]

/-- Only the empty text has no bytes. -/
theorem byteLength_eq_zero {text : List Char} (h : byteLength text = 0) : text = [] := by
  cases text with
  | nil => rfl
  | cons c rest =>
    have hpos := c.utf8Size_pos
    simp only [byteLength] at h
    omega

/-- A prefix of a text is determined by its number of bytes. -/
theorem append_inj_of_byteLength (left right before after : List Char)
    (htext : left ++ right = before ++ after) (hlength : byteLength left = byteLength before) :
    left = before ∧ right = after := by
  induction left generalizing before with
  | nil =>
    have hbefore : before = [] := byteLength_eq_zero hlength.symm
    subst before
    exact ⟨rfl, htext⟩
  | cons c left ih =>
    cases before with
    | nil =>
      have hempty := byteLength_eq_zero hlength
      contradiction
    | cons d before =>
      simp only [List.cons_append, List.cons.injEq] at htext
      obtain ⟨rfl, htext⟩ := htext
      simp only [byteLength, Nat.add_left_cancel_iff] at hlength
      obtain ⟨rfl, rfl⟩ := ih before htext hlength
      exact ⟨rfl, rfl⟩

/-- Of two prefixes of a text the one with fewer bytes is a prefix of the other. -/
theorem prefix_of_byteLength_le (short long text : List Char) (hshort : short <+: text)
    (hlong : long <+: text) (hlength : byteLength short ≤ byteLength long) : short <+: long := by
  rcases List.prefix_or_prefix_of_prefix hshort hlong with h | ⟨extra, rfl⟩
  · exact h
  · rw [byteLength_append] at hlength
    have hextra : extra = [] := byteLength_eq_zero (by omega)
    exact ⟨[], by rw [hextra, List.append_nil, List.append_nil]⟩

/-- A text can be cut behind any of its prefixes. -/
theorem cut?_append (before after : List Char) :
    cut? (byteLength before) (before ++ after) = some (before, after) := by
  induction before with
  | nil => simp [byteLength, cut?]
  | cons c before ih =>
    have hpos := c.utf8Size_pos
    obtain ⟨n, hn⟩ : ∃ n, byteLength (c :: before) = n + 1 :=
      Nat.exists_eq_add_one.mpr (by simp only [byteLength]; omega)
    have hfits : c.utf8Size ≤ n + 1 := by simp only [byteLength] at hn; omega
    have hrest : n + 1 - c.utf8Size = byteLength before := by simp only [byteLength] at hn; omega
    rw [hn, List.cons_append, cut?, if_pos hfits, hrest, ih]
    rfl

/-- Cutting gives the two parts of a text of which the first has the wanted number of bytes. -/
theorem cut?_eq_some_iff (offset : Nat) (text before after : List Char) :
    cut? offset text = some (before, after) ↔ text = before ++ after ∧ byteLength before = offset := by
  constructor
  · intro h
    induction text generalizing offset before with
    | nil =>
      cases offset with
      | zero =>
        simp only [cut?, Option.some.injEq, Prod.mk.injEq] at h
        obtain ⟨rfl, rfl⟩ := h
        exact ⟨rfl, rfl⟩
      | succ n => simp [cut?] at h
    | cons c rest ih =>
      cases offset with
      | zero =>
        simp only [cut?, Option.some.injEq, Prod.mk.injEq] at h
        obtain ⟨rfl, rfl⟩ := h
        exact ⟨rfl, rfl⟩
      | succ n =>
        by_cases hfits : c.utf8Size ≤ n + 1
        · rw [cut?, if_pos hfits] at h
          obtain ⟨⟨left, right⟩, hcut, heq⟩ := Option.map_eq_some_iff.mp h
          simp only [Prod.mk.injEq] at heq
          obtain ⟨rfl, rfl⟩ := heq
          obtain ⟨rfl, hlength⟩ := ih _ left hcut
          refine ⟨rfl, ?_⟩
          simp only [byteLength, hlength]
          omega
        · simp [cut?, hfits] at h
  · rintro ⟨rfl, rfl⟩
    exact cut?_append before after

/-- An offset at which a text can be cut in two. -/
def IsBoundary (text : String) (offset : Nat) : Prop :=
  ∃ before after : List Char, text.toList = before ++ after ∧ byteLength before = offset

/-- Boundaries are the offsets at which cutting succeeds. -/
theorem isBoundary_iff_cut? (text : String) (offset : Nat) :
    IsBoundary text offset ↔ (cut? offset text.toList).isSome = true := by
  rw [Option.isSome_iff_exists]
  constructor
  · rintro ⟨before, after, h⟩
    exact ⟨(before, after), (cut?_eq_some_iff _ _ _ _).mpr h⟩
  · rintro ⟨⟨before, after⟩, h⟩
    exact ⟨before, after, (cut?_eq_some_iff _ _ _ _).mp h⟩

instance (text : String) (offset : Nat) : Decidable (IsBoundary text offset) :=
  decidable_of_iff _ (isBoundary_iff_cut? text offset).symm

/-- No boundary lies past the end of a text. -/
theorem IsBoundary.le_byteLength {text : String} {offset : Nat} (h : IsBoundary text offset) :
    offset ≤ byteLength text.toList := by
  obtain ⟨before, after, htext, rfl⟩ := h
  rw [htext, byteLength_append]
  exact Nat.le_add_right _ _

/-- A slice is what stands between two parts of a text with the right numbers of bytes. -/
theorem slice?_eq_some_iff (text piece : String) (start stop : Nat) :
    slice? text start stop = some piece ↔
      ∃ before after, text.toList = before ++ piece.toList ++ after ∧
        byteLength before = start ∧ start + byteLength piece.toList = stop := by
  constructor
  · intro h
    unfold slice? at h
    split at h
    · next horder =>
      obtain ⟨⟨before, rest⟩, hfirst, h⟩ := Option.bind_eq_some_iff.mp h
      obtain ⟨⟨middle, after⟩, hsecond, h⟩ := Option.bind_eq_some_iff.mp h
      obtain ⟨htext, hbefore⟩ := (cut?_eq_some_iff _ _ _ _).mp hfirst
      obtain ⟨hrest, hmiddle⟩ := (cut?_eq_some_iff _ _ _ _).mp hsecond
      simp only [pure, Option.some.injEq] at h
      subst piece
      refine ⟨before, after, ?_, hbefore, ?_⟩
      · rw [String.toList_ofList, htext, hrest, List.append_assoc]
      · rw [String.toList_ofList, hmiddle]
        omega
    · contradiction
  · rintro ⟨before, after, htext, rfl, rfl⟩
    have hlength : byteLength before + byteLength piece.toList - byteLength before =
        byteLength piece.toList := by omega
    rw [slice?, if_pos (Nat.le_add_right _ _), htext, List.append_assoc, cut?_append]
    simp only [Option.bind_eq_bind, Option.bind_some, hlength, cut?_append]
    exact congrArg some String.ofList_toList

/-- A slice exists exactly when its ends are boundaries in order. -/
theorem slice?_isSome_iff (text : String) (start stop : Nat) :
    (slice? text start stop).isSome = true ↔
      start ≤ stop ∧ IsBoundary text start ∧ IsBoundary text stop := by
  rw [Option.isSome_iff_exists]
  constructor
  · rintro ⟨piece, h⟩
    obtain ⟨before, after, htext, rfl, rfl⟩ := (slice?_eq_some_iff _ _ _ _).mp h
    refine ⟨Nat.le_add_right _ _, ⟨before, piece.toList ++ after, ?_, rfl⟩,
      ⟨before ++ piece.toList, after, htext, byteLength_append _ _⟩⟩
    rw [htext, List.append_assoc]
  · rintro ⟨horder, ⟨before, rest, htext, rfl⟩, ⟨left, right, htext', rfl⟩⟩
    obtain ⟨piece, rfl⟩ := prefix_of_byteLength_le before left text.toList
      ⟨rest, htext.symm⟩ ⟨right, htext'.symm⟩ horder
    refine ⟨String.ofList piece, (slice?_eq_some_iff _ _ _ _).mpr ⟨before, right, ?_, rfl, ?_⟩⟩
    · rw [String.toList_ofList, htext']
    · rw [String.toList_ofList, byteLength_append]

/-- Between boundaries in order, the slice that is or is not there is there. -/
theorem slice?_eq_some_sliceOrEmpty (text : String) (start stop : Nat) (horder : start ≤ stop)
    (hstart : IsBoundary text start) (hstop : IsBoundary text stop) :
    slice? text start stop = some (sliceOrEmpty text start stop) := by
  obtain ⟨piece, hpiece⟩ := Option.isSome_iff_exists.mp
    ((slice?_isSome_iff text start stop).mpr ⟨horder, hstart, hstop⟩)
  rw [sliceOrEmpty, hpiece, Option.getD_some]

/-- An empty range writes nothing, whether or not it is a slice. -/
theorem sliceOrEmpty_self (text : String) (offset : Nat) : sliceOrEmpty text offset offset = "" := by
  unfold sliceOrEmpty
  cases hslice : slice? text offset offset with
  | none => rfl
  | some piece =>
    obtain ⟨before, after, -, -, hlength⟩ := (slice?_eq_some_iff _ _ _ _).mp hslice
    have hempty : piece.toList = [] := byteLength_eq_zero (by omega)
    rw [Option.getD_some, ← String.toList_inj, hempty, String.toList_empty]

/-- A slice between boundaries has as many bytes as its range. -/
theorem byteLength_sliceOrEmpty (text : String) (start stop : Nat) (horder : start ≤ stop)
    (hstart : IsBoundary text start) (hstop : IsBoundary text stop) :
    start + byteLength (sliceOrEmpty text start stop).toList = stop := by
  have hslice := slice?_eq_some_sliceOrEmpty text start stop horder hstart hstop
  obtain ⟨before, after, -, -, hlength⟩ := (slice?_eq_some_iff _ _ _ _).mp hslice
  exact hlength

/-- Two slices that meet at a boundary are together the slice over both. -/
theorem sliceOrEmpty_append (text : String) (start middle stop : Nat) (hfirst : start ≤ middle)
    (hsecond : middle ≤ stop) (hstart : IsBoundary text start) (hmiddle : IsBoundary text middle)
    (hstop : IsBoundary text stop) :
    sliceOrEmpty text start middle ++ sliceOrEmpty text middle stop = sliceOrEmpty text start stop := by
  have hleft := slice?_eq_some_sliceOrEmpty text start middle hfirst hstart hmiddle
  have hright := slice?_eq_some_sliceOrEmpty text middle stop hsecond hmiddle hstop
  obtain ⟨before, after, htext, hbefore, hlength⟩ := (slice?_eq_some_iff _ _ _ _).mp hleft
  obtain ⟨before', after', htext', hbefore', hlength'⟩ := (slice?_eq_some_iff _ _ _ _).mp hright
  have hmeet : before ++ (sliceOrEmpty text start middle).toList = before' ∧
      after = (sliceOrEmpty text middle stop).toList ++ after' := by
    apply append_inj_of_byteLength
    · rw [← htext, htext', List.append_assoc]
    · rw [byteLength_append, hbefore, hlength, hbefore']
  have hwhole : slice? text start stop =
      some (sliceOrEmpty text start middle ++ sliceOrEmpty text middle stop) := by
    refine (slice?_eq_some_iff _ _ _ _).mpr ⟨before, after', ?_, hbefore, ?_⟩
    · rw [String.toList_append, htext, hmeet.2]
      simp only [List.append_assoc]
    · rw [String.toList_append, byteLength_append]
      omega
  rw [sliceOrEmpty.eq_1 text start stop, hwhole, Option.getD_some]

end Synopsis.Text
