import SharedInfra.Python.Lines

/-!
# Files of secrets

A text file with one `label:secret` line for each secret, which the provisioning scripts
read line by line, and append to.  What is appended to a file that ends in a newline
leaves the lines before it as they are (`textLines_append`).
-/

namespace SharedInfra.Mail

open Python

/-- The lines of an open text file, stripped; the empty ones are passed over. -/
def textLines (text : Str) : List Str :=
  ((newlineLines (universalNewlines text)).map strip).filter fun line => !line.isEmpty

/-- `line.split(":", 1)`, where there is a colon. -/
def splitColon (line : Str) : Option (Str × Str) :=
  match line.dropWhile (· != ':') with
  | [] => none
  | _ :: rest => some (line.takeWhile (· != ':'), rest)

/-- `f"{label}:{secret}\n"`. -/
def secretLine (label secret : Str) : Str := label ++ ':' :: secret ++ ['\n']

/-- A text whose last line is finished. -/
def EndsLine (text : Str) : Prop := text = [] ∨ ∃ before, text = before ++ ['\n']

section Appending

variable {s t l label secret : Str}

theorem newlineLines_newline (s t : Str) :
    newlineLines (s ++ '\n' :: t) = newlineLines (s ++ ['\n']) ++ newlineLines t := by
  induction s with
  | nil => rfl
  | cons c s ih =>
    simp only [List.cons_append, newlineLines]
    split_ifs
    · rw [ih, List.cons_append]
    · rw [ih, consLine_append]
      cases s with
      | nil => simp [newlineLines]
      | cons d s =>
        simp only [List.cons_append, newlineLines]
        split_ifs
        · exact List.cons_ne_nil _ _
        · cases newlineLines (s ++ ['\n']) <;> exact List.cons_ne_nil _ _

theorem universalNewlines_crlf (s : Str) :
    universalNewlines ('\r' :: '\n' :: s) = '\n' :: universalNewlines s := by
  rw [universalNewlines]

theorem universalNewlines_cons {c : Char} (h : ∀ rest, c = '\r' → s ≠ '\n' :: rest) :
    universalNewlines (c :: s) = (if c = '\r' then '\n' else c) :: universalNewlines s := by
  rw [universalNewlines]
  exact fun rest hc hs => h rest hc hs

theorem universalNewlines_newline (s : Str) :
    ∃ s', ∀ t, universalNewlines (s ++ '\n' :: t) = s' ++ '\n' :: universalNewlines t := by
  induction s using universalNewlines.induct with
  | case1 =>
    refine ⟨[], fun t => ?_⟩
    rw [List.nil_append, universalNewlines_cons fun _ h => absurd h (by decide)]
    rfl
  | case2 rest ih =>
    obtain ⟨s', ih⟩ := ih
    refine ⟨'\n' :: s', fun t => ?_⟩
    rw [List.cons_append, List.cons_append, universalNewlines_crlf, ih, List.cons_append]
  | case3 c rest hnot ih =>
    by_cases hlast : c = '\r' ∧ rest = []
    · obtain ⟨rfl, rfl⟩ := hlast
      exact ⟨[], universalNewlines_crlf⟩
    · obtain ⟨s', ih⟩ := ih
      refine ⟨(if c = '\r' then '\n' else c) :: s', fun t => ?_⟩
      rw [List.cons_append, universalNewlines_cons, ih, List.cons_append]
      intro rest' hc hrest
      cases rest with
      | nil => exact hlast ⟨hc, rfl⟩
      | cons d rest =>
        rw [List.cons_append, List.cons.injEq] at hrest
        exact hnot rest hc (by rw [hrest.1])

theorem textLines_append (h : EndsLine s) (t : Str) :
    textLines (s ++ t) = textLines s ++ textLines t := by
  obtain rfl | ⟨before, rfl⟩ := h
  · rfl
  · obtain ⟨before', hbefore⟩ := universalNewlines_newline before
    have hlines : ∀ t, newlineLines (universalNewlines (before ++ ['\n'] ++ t)) =
        newlineLines (before' ++ ['\n']) ++ newlineLines (universalNewlines t) := by
      intro t
      rw [List.append_assoc, List.singleton_append, hbefore, newlineLines_newline]
    have hempty := hlines []
    rw [List.append_nil, universalNewlines, newlineLines, List.append_nil] at hempty
    rw [textLines, hlines, List.map_append, List.filter_append, textLines, hempty]
    rfl

theorem endsLine_append (ht : t ≠ []) (h : EndsLine t) : EndsLine (s ++ t) := by
  obtain rfl | ⟨before, rfl⟩ := h
  · exact absurd rfl ht
  · exact .inr ⟨s ++ before, (List.append_assoc ..).symm⟩

theorem newlineLines_of_not_mem (hne : l ≠ []) (h : '\n' ∉ l) : newlineLines l = [l] := by
  induction l with
  | nil => exact absurd rfl hne
  | cons c l ih =>
    rw [List.mem_cons, not_or] at h
    rw [newlineLines, if_neg (Ne.symm h.1)]
    cases l with
    | nil => rfl
    | cons d l => rw [ih (List.cons_ne_nil d l) h.2]; rfl

theorem universalNewlines_of_not_mem (h : '\r' ∉ l) : universalNewlines l = l := by
  induction l with
  | nil => rfl
  | cons c l ih =>
    rw [List.mem_cons, not_or] at h
    rw [universalNewlines_cons fun _ hc => absurd hc (Ne.symm h.1), if_neg (Ne.symm h.1), ih h.2]

theorem textLines_line (hcr : '\r' ∉ l) (hlf : '\n' ∉ l) (hne : strip l ≠ []) :
    textLines l = [strip l] := by
  have hl : l ≠ [] := by
    rintro rfl
    exact hne rfl
  rw [textLines, universalNewlines_of_not_mem hcr, newlineLines_of_not_mem hl hlf]
  simp [hne]

theorem newlineLines_finished (h : '\n' ∉ l) : newlineLines (l ++ ['\n']) = [l] := by
  induction l with
  | nil => rfl
  | cons c l ih =>
    rw [List.mem_cons, not_or] at h
    rw [List.cons_append, newlineLines, if_neg (Ne.symm h.1), ih h.2]
    rfl

theorem textLines_finished (hcr : '\r' ∉ l) (hlf : '\n' ∉ l) (hne : strip l ≠ []) :
    textLines (l ++ ['\n']) = [strip l] := by
  have hcr' : '\r' ∉ l ++ ['\n'] := by simp [hcr]
  rw [textLines, universalNewlines_of_not_mem hcr', newlineLines_finished hlf]
  simp [hne]

end Appending

section Labels

variable {label secret : Str}

structure PlainLabel (label : Str) : Prop where
  colon : ':' ∉ label
  carriageReturn : '\r' ∉ label
  newline : '\n' ∉ label
  head : ∀ c, label.head? = some c → isSpace c = false

/-- A secret without a space or a line break. -/
def PlainSecret (secret : Str) : Prop := ∀ c ∈ secret, isSpace c = false

theorem PlainSecret.not_mem {c : Char} (h : PlainSecret secret) (hc : isSpace c = true) :
    c ∉ secret := by
  intro hmem
  rw [h c hmem] at hc
  cases hc

theorem splitColon_line (h : ':' ∉ label) (secret : Str) :
    splitColon (label ++ ':' :: secret) = some (label, secret) := by
  have hlabel : ∀ c ∈ label, (c != ':') = true := by
    intro c hc
    rw [bne_iff_ne]
    rintro rfl
    exact h hc
  have hdrop : (':' :: secret).dropWhile (· != ':') = ':' :: secret := by simp
  have htake : (':' :: secret).takeWhile (· != ':') = [] := by simp
  unfold splitColon
  rw [List.dropWhile_append_of_pos hlabel, List.takeWhile_append_of_pos hlabel, hdrop, htake,
    List.append_nil]

theorem strip_line (hlabel : PlainLabel label) (hsecret : PlainSecret secret) :
    strip (label ++ ':' :: secret) = label ++ ':' :: secret := by
  have hleft : lstrip (label ++ ':' :: secret) = label ++ ':' :: secret := by
    cases label with
    | nil => rfl
    | cons c label =>
      rw [lstrip, List.cons_append, List.dropWhile_cons_of_neg]
      rw [hlabel.head c rfl]
      decide
  rw [strip, hleft, rstrip, List.rdropWhile_eq_self_iff]
  intro hne
  have hlast : (label ++ ':' :: secret).getLast hne ∈ ':' :: secret := by
    rw [List.getLast_append_of_ne_nil _ (List.cons_ne_nil _ _)]
    exact List.getLast_mem _
  rcases List.mem_cons.mp hlast with hcolon | hmem
  · rw [hcolon]
    decide
  · rw [hsecret _ hmem]
    decide

theorem line_no_break (hlabel : PlainLabel label) (hsecret : PlainSecret secret) :
    '\r' ∉ label ++ ':' :: secret ∧ '\n' ∉ label ++ ':' :: secret := by
  simp only [List.mem_append, List.mem_cons, not_or]
  exact ⟨⟨hlabel.carriageReturn, by decide, hsecret.not_mem (by decide)⟩,
    ⟨hlabel.newline, by decide, hsecret.not_mem (by decide)⟩⟩

theorem textLines_secretLine (hlabel : PlainLabel label) (hsecret : PlainSecret secret) :
    textLines (secretLine label secret) = [label ++ ':' :: secret] := by
  obtain ⟨hcr, hlf⟩ := line_no_break hlabel hsecret
  have hstrip := strip_line hlabel hsecret
  rw [secretLine, textLines_finished hcr hlf (by rw [hstrip]; simp), hstrip]

theorem textLines_unfinished (hlabel : PlainLabel label) (hsecret : PlainSecret secret) :
    textLines (label ++ ':' :: secret) = [label ++ ':' :: secret] := by
  obtain ⟨hcr, hlf⟩ := line_no_break hlabel hsecret
  have hstrip := strip_line hlabel hsecret
  rw [textLines_line hcr hlf (by rw [hstrip]; simp), hstrip]

theorem endsLine_secretLine (label secret : Str) : EndsLine (secretLine label secret) :=
  .inr ⟨_, rfl⟩

end Labels

end SharedInfra.Mail
