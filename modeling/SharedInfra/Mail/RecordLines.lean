import SharedInfra.Mail.Submission

/-!
# Records in the credentials file

Reading a label before and after a line is appended (`lookupLine_append`), and after the lines of
another label are removed (`textLines_kept`, `lookupLine_filter`).
-/

namespace SharedInfra.Mail
namespace Submission

open Python

section Keys

variable {l spaces : Str} {q : Char → Bool}

theorem rstrip_append_spaces (h : ∀ c ∈ spaces, isSpace c = true) :
    rstrip (l ++ spaces) = rstrip l := by
  rw [rstrip, List.rdropWhile, List.reverse_append, List.dropWhile_append_of_pos]
  · rfl
  · exact fun c hc => h c (List.mem_reverse.mp hc)

theorem rstrip_decompose (l : Str) :
    ∃ spaces, l = rstrip l ++ spaces ∧ ∀ c ∈ spaces, isSpace c = true := by
  refine ⟨(l.reverse.takeWhile isSpace).reverse, ?_, fun c hc => ?_⟩
  · have hsplit := congrArg List.reverse
      (List.takeWhile_append_dropWhile (p := isSpace) (l := l.reverse))
    rw [List.reverse_append, List.reverse_reverse] at hsplit
    exact hsplit.symm
  · exact List.mem_takeWhile_imp (List.mem_reverse.mp hc)

theorem rstrip_takeWhile (h : ∀ c ∈ spaces, isSpace c = true) :
    rstrip ((l ++ spaces).takeWhile q) = rstrip (l.takeWhile q) := by
  rw [List.takeWhile_append]
  split
  · rename_i hlength
    rw [(List.takeWhile_prefix q).eq_of_length hlength]
    exact rstrip_append_spaces fun c hc => h c ((List.takeWhile_prefix q).subset hc)
  · rfl

theorem lstrip_takeWhile (hq : ∀ c, isSpace c = true → q c = true) (l : Str) :
    lstrip (l.takeWhile q) = (lstrip l).takeWhile q := by
  induction l with
  | nil => rfl
  | cons c l ih =>
    cases hspace : isSpace c with
    | true =>
      rw [List.takeWhile_cons_of_pos (hq c hspace), lstrip, lstrip,
        List.dropWhile_cons_of_pos hspace, List.dropWhile_cons_of_pos hspace]
      exact ih
    | false =>
      have hkeep : lstrip (c :: l) = c :: l := by
        rw [lstrip, List.dropWhile_cons_of_neg (by simp [hspace])]
      rw [hkeep]
      cases hc : q c with
      | true =>
        rw [List.takeWhile_cons_of_pos hc, lstrip, List.dropWhile_cons_of_neg (by simp [hspace])]
      | false =>
        rw [List.takeWhile_cons_of_neg (by simp [hc])]
        rfl

theorem noColon_of_isSpace (c : Char) (h : isSpace c = true) : (c != ':') = true := by
  rw [bne_iff_ne]
  rintro rfl
  exact absurd h (by decide)

theorem lineKey_strip (l : Str) : lineKey (strip l) = lineKey l := by
  have hkey : ∀ l, lineKey l = rstrip ((strip l).takeWhile (· != ':')) := by
    intro l
    obtain ⟨spaces, hsplit, hspaces⟩ := rstrip_decompose (lstrip l)
    rw [lineKey, strip, lstrip_takeWhile noColon_of_isSpace, strip]
    conv_lhs => rw [hsplit]
    exact rstrip_takeWhile hspaces
  rw [hkey, strip_strip, ← hkey]

theorem strip_newline (l : Str) : strip (l ++ ['\n']) = strip l := by
  rw [strip, lstrip, List.dropWhile_append]
  split
  · rename_i hempty
    rw [strip, lstrip, List.isEmpty_iff.mp hempty]
    rfl
  · exact rstrip_append_spaces fun c hc => by rw [List.mem_singleton.mp hc]; decide

theorem lineKey_newline (l : Str) : lineKey (l ++ ['\n']) = lineKey l := by
  rw [← lineKey_strip, strip_newline, lineKey_strip]

end Keys

section Lines

variable {u l label : Str} {ls : List Str}

theorem newlineLines_unlines (h : ∀ l ∈ ls, '\n' ∉ l) :
    newlineLines (ls.map (· ++ ['\n'])).flatten = ls := by
  induction ls with
  | nil => rfl
  | cons l ls ih =>
    rw [List.map_cons, List.flatten_cons, List.append_assoc, List.singleton_append,
      newlineLines_newline, newlineLines_finished (h l List.mem_cons_self),
      ih fun l' hl' => h l' (List.mem_cons_of_mem _ hl')]
    rfl

theorem mem_of_consLine {c d : Char} (h : l ∈ consLine c ls) (hd : d ∈ l) :
    d = c ∨ ∃ l' ∈ ls, d ∈ l' := by
  cases ls with
  | nil =>
    rw [List.mem_singleton.mp h] at hd
    exact .inl (List.mem_singleton.mp hd)
  | cons first rest =>
    rcases List.mem_cons.mp h with rfl | hl
    · rcases List.mem_cons.mp hd with hd | hd
      · exact .inl hd
      · exact .inr ⟨first, List.mem_cons_self, hd⟩
    · exact .inr ⟨l, List.mem_cons_of_mem _ hl, hd⟩

theorem mem_newlineLines {d : Char} (h : l ∈ newlineLines u) (hd : d ∈ l) :
    d ∈ u ∧ d ≠ '\n' := by
  induction u generalizing l with
  | nil => cases h
  | cons c u ih =>
    rw [newlineLines] at h
    split_ifs at h with hc
    · rcases List.mem_cons.mp h with rfl | hl
      · cases hd
      · exact ⟨List.mem_cons_of_mem _ (ih hl hd).1, (ih hl hd).2⟩
    · rcases mem_of_consLine h hd with rfl | ⟨l', hl', hd'⟩
      · exact ⟨List.mem_cons_self, hc⟩
      · exact ⟨List.mem_cons_of_mem _ (ih hl' hd').1, (ih hl' hd').2⟩

theorem endsLine_of_cons {c d : Char} (h : EndsLine (c :: d :: u)) : EndsLine (d :: u) := by
  obtain h | ⟨before, h⟩ := h
  · cases h
  · cases before with
    | nil => cases h
    | cons b before => exact .inr ⟨before, (List.cons.inj h).2⟩

theorem newlineLines_ne_nil (h : u ≠ []) : newlineLines u ≠ [] := by
  cases u with
  | nil => exact absurd rfl h
  | cons c u =>
    rw [newlineLines]
    split_ifs
    · exact List.cons_ne_nil _ _
    · cases newlineLines u <;> exact List.cons_ne_nil _ _

theorem readLines_of_ends (h : EndsLine u) : readLines u = (newlineLines u).map (· ++ ['\n']) := by
  induction u with
  | nil => rfl
  | cons c u ih =>
    rw [readLines, newlineLines]
    cases u with
    | nil =>
      obtain h | ⟨before, h⟩ := h
      · cases h
      · have hlast : before = [] ∧ c = '\n' := by
          cases before with
          | nil => exact ⟨rfl, (List.cons.inj h).1⟩
          | cons b before => exact absurd (List.cons.inj h).2 (by simp)
        rw [if_pos hlast.2, if_pos hlast.2]
        rfl
    | cons d u =>
      have ih' := ih (endsLine_of_cons h)
      split_ifs with hc
      · rw [ih']
        rfl
      · rw [ih']
        cases hlines : newlineLines (d :: u) with
        | nil => exact absurd hlines (newlineLines_ne_nil (List.cons_ne_nil _ _))
        | cons first rest => rfl

theorem endsLine_universal (h : EndsLine u) : EndsLine (universalNewlines u) := by
  obtain rfl | ⟨before, rfl⟩ := h
  · exact .inl (by rw [universalNewlines])
  · obtain ⟨before', hbefore⟩ := universalNewlines_newline before
    refine .inr ⟨before', ?_⟩
    rw [hbefore, universalNewlines]

theorem noReturn_universal (u : Str) : '\r' ∉ universalNewlines u := by
  induction u using universalNewlines.induct with
  | case1 => simp [universalNewlines]
  | case2 rest ih =>
    rw [universalNewlines_crlf]
    simp [ih]
  | case3 c rest hnot ih =>
    rw [universalNewlines_cons fun rest' hc hrest => hnot rest' hc hrest, List.mem_cons, not_or]
    refine ⟨?_, ih⟩
    split
    · decide
    · rename_i hc
      exact Ne.symm hc

theorem textLines_kept (h : EndsLine u) :
    textLines (keptLines label u).flatten =
      (textLines u).filter fun line => lineKey line != label := by
  have hlines : keptLines label u =
      ((newlineLines (universalNewlines u)).filter fun line => lineKey line != label).map
        (· ++ ['\n']) := by
    rw [keptLines, readLines_of_ends (endsLine_universal h), List.filter_map]
    congr 1
    refine List.filter_congr fun line _ => ?_
    rw [Function.comp_apply, lineKey_newline]
  have hreturn : '\r' ∉ (keptLines label u).flatten := by
    rw [hlines]
    simp only [List.mem_flatten, List.mem_map, List.mem_filter, not_exists, not_and]
    rintro _ ⟨line, ⟨hline, -⟩, rfl⟩ hmem
    rcases List.mem_append.mp hmem with hmem | hmem
    · exact noReturn_universal u (mem_newlineLines hline hmem).1
    · exact absurd (List.mem_singleton.mp hmem) (by decide)
  rw [textLines, universalNewlines_of_not_mem hreturn, hlines, newlineLines_unlines, textLines,
    List.filter_filter, List.filter_map, List.filter_map, List.filter_filter]
  · congr 1
    refine List.filter_congr fun line _ => ?_
    rw [Function.comp_apply, Function.comp_apply, lineKey_strip, Bool.and_comm]
  · intro line hline hmem
    exact (mem_newlineLines (List.mem_of_mem_filter hline) hmem).2 rfl

theorem endsLine_kept (h : EndsLine u) : EndsLine (keptLines label u).flatten := by
  rw [keptLines, readLines_of_ends (endsLine_universal h), List.filter_map]
  generalize List.filter _ _ = ls
  rcases List.eq_nil_or_concat ls with rfl | ⟨before, last, rfl⟩
  · exact .inl rfl
  · refine .inr ⟨(before.map (· ++ ['\n'])).flatten ++ last, ?_⟩
    simp

end Lines

section Lookups

variable {label other secret line : Str} {lines : List Str}

theorem loadRecordedSecret_eq (label : Str) (file : Option Str) :
    loadRecordedSecret label file = lookupLine label (textLines (file.getD [])) := by
  cases file with
  | none => rfl
  | some text => rfl

theorem lookupLine_append (hline : splitColon line = some (other, secret)) :
    lookupLine label (lines ++ [line]) =
      if lookupLine label lines = some none ∧ other = label then some (some secret)
      else lookupLine label lines := by
  induction lines with
  | nil => simp [lookupLine, hline]
  | cons first lines ih =>
    rw [List.cons_append, lookupLine, lookupLine]
    cases hfirst : splitColon first with
    | none => simp
    | some parts =>
      obtain ⟨firstLabel, firstSecret⟩ := parts
      by_cases hlabel : firstLabel = label
      · simp [hlabel]
      · simp only [if_neg hlabel, ih]

theorem lookupLine_filter {keep : Str → Bool}
    (h : ∀ line ∈ lines, keep line = false →
      ∃ other secret, splitColon line = some (other, secret) ∧ other ≠ label) :
    lookupLine label (lines.filter keep) = lookupLine label lines := by
  induction lines with
  | nil => rfl
  | cons first lines ih =>
    have ih' := ih fun line hline => h line (List.mem_cons_of_mem _ hline)
    cases hkeep : keep first with
    | true =>
      rw [List.filter_cons_of_pos hkeep, lookupLine, lookupLine]
      cases splitColon first with
      | none => rfl
      | some parts => simp only [ih']
    | false =>
      obtain ⟨other, secret, hfirst, hother⟩ := h first List.mem_cons_self hkeep
      rw [List.filter_cons_of_neg (by simp [hkeep]), ih']
      conv_rhs => rw [lookupLine, hfirst]
      simp only [if_neg hother]

theorem lookupLine_eq_none (h : ∀ line ∈ lines,
    ∃ other secret, splitColon line = some (other, secret) ∧ other ≠ label) :
    lookupLine label lines = some none := by
  induction lines with
  | nil => rfl
  | cons first lines ih =>
    obtain ⟨other, secret, hfirst, hother⟩ := h first List.mem_cons_self
    rw [lookupLine, hfirst]
    simp only [if_neg hother]
    exact ih fun line hline => h line (List.mem_cons_of_mem _ hline)

theorem splitColon_key (h : splitColon line = some (other, secret)) :
    lineKey line = strip other := by
  unfold splitColon at h
  split at h
  · cases h
  · cases h
    rfl

end Lookups

end Submission
end SharedInfra.Mail
