import SharedInfra.Python.Replace

/-!
# Replacing text by a marker

What occurs in a text in which something was replaced by a marker.  A word that is `Apart` from the
marker, which neither reaches over an end of it nor holds all of it, occurs only where it did, in
the text between what was replaced (`infix_of_infix_replace`).
-/

namespace SharedInfra.Python

section Words

variable {α : Type} {marker word left right : List α}

/-- No occurrence of the word reaches over an end of the marker. -/
structure Apart (marker word : List α) : Prop where
  before : ∀ s, s ≠ [] → s <:+ word → ¬ s <+: marker
  behind : ∀ s, s ≠ [] → s <+: word → ¬ s <:+ marker
  around : ¬ marker <:+: word

theorem Apart.beside (h : Apart marker word) (houtside : ¬ word <:+: marker)
    (hword : word <:+: left ++ marker ++ right) : word <:+: left ∨ word <:+: right := by
  rcases List.infix_append_iff_ne_nil.mp hword with hword | hword | ⟨s, t, hs, -, rfl, hleft, -⟩
  · rcases List.infix_append_iff_ne_nil.mp hword with hword | hword | ⟨s, t, -, ht, rfl, -, hmarker⟩
    · exact .inl hword
    · exact absurd hword houtside
    · exact absurd hmarker (h.before t ht (List.suffix_append s t))
  · exact .inr hword
  · rcases List.suffix_or_suffix_of_suffix hleft (List.suffix_append left marker) with hin | hover
    · exact absurd hin (h.behind s hs (List.prefix_append s t))
    · exact absurd (hover.isInfix.trans (List.prefix_append s t).isInfix) h.around

/-- A word that occurs around a marker only where it occurs beside it, or in it, is apart from it if
it is no part of it. -/
theorem apart_of_beside (hmarker : marker ≠ []) (houtside : ¬ word <:+: marker)
    (h : ∀ left right, word <:+: left ++ marker ++ right →
      word <:+: left ∨ word <:+: right ∨ word <:+: marker) : Apart marker word := by
  have hne : ∀ s t : List α, s ≠ [] → ¬ t ++ s <:+: t := fun s t hs hin => hs <| by
    have := hin.length_le
    rw [List.length_append] at this
    exact List.eq_nil_of_length_eq_zero (by omega)
  have hne' : ∀ s t : List α, s ≠ [] → ¬ s ++ t <:+: t := fun s t hs hin => hs <| by
    have := hin.length_le
    rw [List.length_append] at this
    exact List.eq_nil_of_length_eq_zero (by omega)
  have hnil : ¬ word <:+: [] := fun hin => houtside (hin.trans List.nil_infix)
  refine ⟨fun s hs hsuffix hprefix => ?_, fun s hs hprefix hsuffix => ?_, fun haround => ?_⟩
  · obtain ⟨t, rfl⟩ := hsuffix
    obtain ⟨rest, rfl⟩ := hprefix
    rcases h t [] ⟨[], rest, by simp⟩ with hleft | hright | hin
    · exact hne s t hs hleft
    · exact hnil hright
    · exact houtside hin
  · obtain ⟨t, rfl⟩ := hprefix
    obtain ⟨front, rfl⟩ := hsuffix
    rcases h [] t ⟨front, [], by simp⟩ with hleft | hright | hin
    · exact hnil hleft
    · exact hne' s t hs hright
    · exact houtside hin
  · obtain ⟨s, t, rfl⟩ := haround
    rcases h s t List.infix_rfl with hleft | hright | hin
    · have := hleft.length_le
      simp only [List.length_append] at this
      exact hmarker (List.eq_nil_of_length_eq_zero (by omega))
    · have := hright.length_le
      simp only [List.length_append] at this
      exact hmarker (List.eq_nil_of_length_eq_zero (by omega))
    · exact houtside hin

end Words

section Replacing

variable {s old marker word : Str}

theorem replaceAfter_skip (front rest : Str) :
    replaceAfter old marker front.length (front ++ rest) = replaceAfter old marker 0 rest := by
  induction front with
  | nil => rfl
  | cons c front ih => exact ih

theorem replace_first (marker : Str) (hne : old ≠ []) (h : old <:+: s) : ∃ left right,
    s = left ++ old ++ right ∧ ¬ old <:+: left ∧
      replace s old marker = left ++ marker ++ replace right old marker := by
  induction s with
  | nil => exact absurd (List.infix_nil.mp h) hne
  | cons c rest ih =>
    by_cases hstart : old <+: c :: rest
    · obtain ⟨right, hright⟩ := hstart
      refine ⟨[], right, hright.symm, fun hnil => hne (List.infix_nil.mp hnil), ?_⟩
      cases old with
      | nil => exact absurd rfl hne
      | cons d tail =>
        obtain ⟨rfl, rfl⟩ := List.cons.inj hright
        rw [replace, replaceAfter_of_match (List.prefix_append _ _)]
        exact congrArg (marker ++ ·) (replaceAfter_skip tail right)
    · have hrest := (List.infix_cons_iff.mp h).resolve_left hstart
      obtain ⟨left, right, rfl, hleft, hreplace⟩ := ih hrest
      refine ⟨c :: left, right, rfl, fun hin => ?_, ?_⟩
      · rcases List.infix_cons_iff.mp hin with hbegin | hin
        · refine hstart (hbegin.trans ⟨old ++ right, ?_⟩)
          simp
        · exact hleft hin
      · rw [replace, replaceAfter_of_mismatch hstart]
        exact congrArg (c :: ·) hreplace

theorem infix_of_infix_replace (hne : old ≠ []) (hword : Apart marker word)
    (houtside : ¬ word <:+: marker) (h : word <:+: replace s old marker) :
    word <:+: s ∧ ¬ old <:+: word := by
  induction hlength : s.length using Nat.strong_induction_on generalizing s with
  | _ n ih =>
    subst hlength
    by_cases hold : old <:+: s
    · obtain ⟨left, right, rfl, hleft, hreplace⟩ := replace_first marker hne hold
      rw [hreplace] at h
      rcases hword.beside houtside h with hin | hin
      · refine ⟨hin.trans ?_, fun hold => hleft (hold.trans hin)⟩
        rw [List.append_assoc]
        exact List.infix_append_of_infix_left List.infix_rfl
      · have hshort : right.length < (left ++ old ++ right).length := by
          have := List.length_pos_iff.mpr hne
          simp only [List.length_append]
          omega
        obtain ⟨hright, hnot⟩ := ih _ hshort hin rfl
        exact ⟨List.infix_append_of_infix_right hright, hnot⟩
    · rw [replace_of_absent hold] at h
      exact ⟨h, fun hin => hold (hin.trans h)⟩

end Replacing

end SharedInfra.Python
