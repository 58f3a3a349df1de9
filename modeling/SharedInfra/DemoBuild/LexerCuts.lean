import SharedInfra.DemoBuild.CaddyReading

/-!
# Where the tokens stand in the text

In a text without carriage returns and without `<<` every token is a piece of the text between two
edges (`Cuts`), but for backslashes before quotes and angle brackets (`Unescapes`): `lexFrom_cuts`.
-/

namespace SharedInfra.DemoBuild

open Python

section Pieces

/-- The text of a piece without the backslashes that escape. -/
inductive Unescapes : Str → Str → Prop
  | nil : Unescapes [] []
  | keep (c : Char) {piece text : Str} (h : Unescapes piece text) :
      Unescapes (c :: piece) (c :: text)
  | drop (c : Char) {piece text : Str} (hc : c = '"' ∨ c = '<') (h : Unescapes piece text) :
      Unescapes ('\\' :: c :: piece) (c :: text)

variable {piece text piece' text' word : Str} {c : Char}

theorem unescapes_refl (s : Str) : Unescapes s s := by
  induction s with
  | nil => exact .nil
  | cons c s ih => exact .keep c ih

theorem Unescapes.append (h : Unescapes piece text) (h' : Unescapes piece' text') :
    Unescapes (piece ++ piece') (text ++ text') := by
  induction h with
  | nil => exact h'
  | keep c _ ih => exact .keep c ih
  | drop c hc _ ih => exact .drop c hc ih

theorem Unescapes.infix_piece (h : Unescapes piece text) (hquote : '"' ∉ word) (hangle : '<' ∉ word)
    (hword : word <:+: text) : word <:+: piece := by
  have hstart : ∀ {piece text : Str}, Unescapes piece text → ∀ {word : Str}, '"' ∉ word →
      '<' ∉ word → word <+: text → word <+: piece := by
    intro piece text h
    induction h with
    | nil => intro word _ _ hword; exact hword
    | keep c _ ih =>
      intro word hquote hangle hword
      cases word with
      | nil => exact List.nil_prefix
      | cons d word =>
        obtain ⟨rfl, hrest⟩ := List.cons_prefix_cons.mp hword
        exact List.cons_prefix_cons.mpr ⟨rfl, ih (fun h => hquote (List.mem_cons_of_mem _ h))
          (fun h => hangle (List.mem_cons_of_mem _ h)) hrest⟩
    | drop c hc _ ih =>
      intro word hquote hangle hword
      cases word with
      | nil => exact List.nil_prefix
      | cons d word =>
        obtain ⟨rfl, -⟩ := List.cons_prefix_cons.mp hword
        rcases hc with rfl | rfl
        · exact absurd List.mem_cons_self hquote
        · exact absurd List.mem_cons_self hangle
  induction h with
  | nil => exact hword
  | keep c hpiece ih =>
    rcases List.infix_cons_iff.mp hword with hword | hword
    · exact (hstart (.keep c hpiece) hquote hangle hword).isInfix
    · exact (ih hword).trans (List.suffix_cons c _).isInfix
  | drop c hc hpiece ih =>
    rcases List.infix_cons_iff.mp hword with hword | hword
    · exact (hstart (.drop c hc hpiece) hquote hangle hword).isInfix
    · exact (ih hword).trans ((List.suffix_cons c _).trans (List.suffix_cons '\\' _)).isInfix

theorem Unescapes.infix_text (h : Unescapes piece text) (hslash : '\\' ∉ word)
    (hword : word <:+: piece) : word <:+: text := by
  have hstart : ∀ {piece text : Str}, Unescapes piece text → ∀ {word : Str}, '\\' ∉ word →
      word <+: piece → word <+: text := by
    intro piece text h
    induction h with
    | nil => intro word _ hword; exact hword
    | keep c _ ih =>
      intro word hslash hword
      cases word with
      | nil => exact List.nil_prefix
      | cons d word =>
        obtain ⟨rfl, hrest⟩ := List.cons_prefix_cons.mp hword
        exact List.cons_prefix_cons.mpr
          ⟨rfl, ih (fun h => hslash (List.mem_cons_of_mem _ h)) hrest⟩
    | drop c hc _ ih =>
      intro word hslash hword
      cases word with
      | nil => exact List.nil_prefix
      | cons d word =>
        obtain ⟨rfl, -⟩ := List.cons_prefix_cons.mp hword
        exact absurd List.mem_cons_self hslash
  induction h with
  | nil => exact hword
  | keep c hpiece ih =>
    rcases List.infix_cons_iff.mp hword with hword | hword
    · exact (hstart (.keep c hpiece) hslash hword).isInfix
    · exact (ih hword).trans (List.suffix_cons c _).isInfix
  | drop c hc hpiece ih =>
    rcases List.infix_cons_iff.mp hword with hword | hword
    · exact (hstart (.drop c hc hpiece) hslash hword).isInfix
    · rcases List.infix_cons_iff.mp hword with hword | hword
      · exact (hstart (.keep c hpiece) hslash hword).isInfix
      · exact (ih hword).trans (List.suffix_cons c _).isInfix

theorem Unescapes.eq_of_plain (h : Unescapes piece text) (hquote : '"' ∉ text)
    (hangle : '<' ∉ text) : piece = text := by
  induction h with
  | nil => rfl
  | keep c _ ih =>
    rw [ih (fun h => hquote (List.mem_cons_of_mem _ h)) fun h =>
      hangle (List.mem_cons_of_mem _ h)]
  | drop c hc _ _ =>
    rcases hc with rfl | rfl
    · exact absurd List.mem_cons_self hquote
    · exact absurd List.mem_cons_self hangle

end Pieces

section Cuts

/-- What may stand on either side of a token. -/
def isEdge (c : Char) : Bool :=
  isGoSpace c || c == '"' || c == '\x60' || c == '\\' || c == '\uFEFF'

def EndsGap (gap : Str) : Prop := ∃ front c, gap = front ++ [c] ∧ isEdge c = true

def StartsGap (rest : Str) : Prop := rest = [] ∨ ∃ c more, rest = c :: more ∧ isEdge c = true

/-- A token may have a backslash in front that stood before its piece. -/
structure Spells (piece text : Str) : Prop where
  split : ∃ lead body, text = lead ++ body ∧ Unescapes piece body ∧ (lead = [] ∨ lead = ['\\'])

/-- The text is cut into the pieces of the tokens, with edges around each. -/
inductive Cuts : Str → List Token → Prop
  | nil (gap : Str) : Cuts gap []
  | cons {gap piece rest : Str} {token : Token} {tokens : List Token} (hgap : EndsGap gap)
      (hpiece : Spells piece token.text) (hrest : StartsGap rest) (h : Cuts rest tokens) :
      Cuts (gap ++ (piece ++ rest)) (token :: tokens)

/-- What the lexer has read since the last token: a gap, a piece and a backslash that is still to
be judged. -/
inductive Reads (st : LexState) : Str → Str → Str → Prop
  | idle {gap : Str} (hval : st.val = []) (hmode : st.mode = .bare) (hgap : EndsGap gap) :
      Reads st gap [] []
  | comment {gap : Str} (hval : st.val = []) (hmode : st.mode = .comment) : Reads st gap [] []
  | word {gap piece lead body pending : Str} (hmode : st.mode = .bare) (hgap : EndsGap gap)
      (hval : st.val = lead ++ body) (hne : piece ≠ []) (hpiece : Unescapes piece body)
      (hplain : st.heredocEscaped = false → body = piece) (hlead : lead = [] ∨ lead = ['\\'])
      (hpending : pending = if st.escaped then ['\\'] else []) : Reads st gap piece pending
  | quoted {gap piece lead body pending : Str} (hmode : st.mode = .quoted) (hgap : EndsGap gap)
      (hval : st.val = lead ++ body) (hpiece : Unescapes piece body)
      (hlead : lead = [] ∨ lead = ['\\'])
      (hpending : pending = if st.escaped then ['\\'] else []) : Reads st gap piece pending
  | stray {gap : Str} (hmode : st.mode = .quoted) (hgap : EndsGap gap) (hval : st.val = [])
      (hescaped : st.escaped = true) : Reads st gap [] []
  | backquoted {gap piece : Str} (hmode : st.mode = .backquoted) (hgap : EndsGap gap)
      (hval : st.val = piece) : Reads st gap piece []

variable {st st' : LexState} {gap piece pending rest : Str} {c : Char} {token : Option Token}
  {tokens : List Token}

theorem endsGap_snoc (gap : Str) (hc : isEdge c = true) : EndsGap (gap ++ [c]) := ⟨gap, c, rfl, hc⟩

theorem isEdge_of_space (hc : isGoSpace c = true) : isEdge c = true := by simp [isEdge, hc]

/-- What a step of the lexer makes of what was read. -/
inductive Steps (gap piece pending : Str) (c : Char) (st' : LexState) : Option Token → Prop
  | more {gap' piece' pending' : Str} (h : Reads st' gap' piece' pending')
      (htext : gap' ++ (piece' ++ pending') = gap ++ (piece ++ (pending ++ [c]))) :
      Steps gap piece pending c st' none
  | token {token : Token} (hgap : EndsGap gap) (hpiece : Spells piece token.text)
      (hpending : pending = [] ∨ pending = ['\\']) (hc : isEdge c = true)
      (h : Reads st' (pending ++ [c]) [] []) : Steps gap piece pending c st' (some token)

theorem steps_idle (hval : st.val = []) (hmode : st.mode = .bare) (hgap : EndsGap gap)
    (hreturn : c ≠ '\r') (hstep : lexStep st c = some (st', token)) :
    Steps gap [] [] c st' token := by
  obtain ⟨val, mode, escaped, heredocEscaped, newLine⟩ := st
  obtain rfl : val = [] := hval
  obtain rfl : mode = .bare := hmode
  have hhead : startsWith ([] : Str) ['<', '<'] = false := rfl
  simp only [lexStep, hhead, Bool.and_false, Bool.false_eq_true, if_false] at hstep
  split_ifs at hstep with hslash
  · obtain ⟨rfl, rfl⟩ := Prod.mk.inj (Option.some.inj hstep)
    rw [Bool.and_eq_true, beq_iff_eq] at hslash
    exact .more (.idle rfl rfl (endsGap_snoc gap (c := c) (by rw [hslash.2]; rfl))) (by simp)
  · replace hstep := Option.some.inj hstep
    simp only [bareStep, if_neg hreturn, true_and, if_true, ite_self, reduceCtorEq,
      if_false] at hstep
    split_ifs at hstep with hspace hcomment hquote hback hescaped hangle
    · obtain ⟨rfl, rfl⟩ := Prod.mk.inj hstep
      exact .more (.idle rfl rfl (endsGap_snoc gap (isEdge_of_space hspace))) (by simp)
    · obtain ⟨rfl, rfl⟩ := Prod.mk.inj hstep
      exact .more (show Reads _ (gap ++ [c]) [] [] from .comment rfl rfl) (by simp)
    · obtain ⟨rfl, rfl⟩ := Prod.mk.inj hstep
      have hedge : EndsGap (gap ++ [c]) := endsGap_snoc gap (by rw [hquote]; rfl)
      cases escaped with
      | true => exact .more (.stray rfl hedge rfl rfl) (by simp)
      | false =>
        exact .more (.quoted rfl hedge (List.nil_append []).symm .nil (Or.inl rfl) rfl)
          (by simp)
    · obtain ⟨rfl, rfl⟩ := Prod.mk.inj hstep
      exact .more (.backquoted rfl (endsGap_snoc gap (c := c) (by rw [hback]; rfl)) rfl) (by simp)
    · obtain ⟨rfl, rfl⟩ := Prod.mk.inj hstep
      exact .more (.word rfl hgap (List.nil_append ['<']).symm (List.cons_ne_nil '<' [])
        (unescapes_refl _) (fun _ => rfl) (Or.inl rfl) rfl) (by simp [hangle])
    · obtain ⟨rfl, rfl⟩ := Prod.mk.inj hstep
      exact .more (.word rfl hgap (List.singleton_append (x := '\\') (l := [c])).symm
        (List.cons_ne_nil c []) (unescapes_refl _) (fun _ => rfl) (Or.inr rfl) rfl) (by simp)
    · obtain ⟨rfl, rfl⟩ := Prod.mk.inj hstep
      exact .more (.word rfl hgap (List.nil_append [c]).symm (List.cons_ne_nil c [])
        (unescapes_refl _) (fun _ => rfl) (Or.inl rfl) (if_neg hescaped).symm) (by simp)

theorem steps_comment (hval : st.val = []) (hmode : st.mode = .comment) (hreturn : c ≠ '\r')
    (hstep : lexStep st c = some (st', token)) : Steps gap [] [] c st' token := by
  obtain ⟨val, mode, escaped, heredocEscaped, newLine⟩ := st
  obtain rfl : val = [] := hval
  obtain rfl : mode = .comment := hmode
  have hhead : startsWith ([] : Str) ['<', '<'] = false := rfl
  simp only [lexStep, hhead, Bool.and_false, Bool.false_eq_true, if_false] at hstep
  split_ifs at hstep with hslash
  · obtain ⟨rfl, rfl⟩ := Prod.mk.inj (Option.some.inj hstep)
    exact .more (show Reads _ (gap ++ [c]) [] [] from .comment rfl rfl) (by simp)
  · replace hstep := Option.some.inj hstep
    simp only [bareStep, if_neg hreturn, if_true] at hstep
    split_ifs at hstep with hspace hline
    · obtain ⟨rfl, rfl⟩ := Prod.mk.inj hstep
      exact .more (.idle rfl rfl (endsGap_snoc gap (isEdge_of_space hspace))) (by simp)
    · obtain ⟨rfl, rfl⟩ := Prod.mk.inj hstep
      exact .more (show Reads _ (gap ++ [c]) [] [] from .comment rfl rfl) (by simp)
    · obtain ⟨rfl, rfl⟩ := Prod.mk.inj hstep
      exact .more (show Reads _ (gap ++ [c]) [] [] from .comment rfl rfl) (by simp)

variable {lead body : Str}

theorem steps_word (hmode : st.mode = .bare) (hgap : EndsGap gap) (hval : st.val = lead ++ body)
    (hne : piece ≠ []) (hpiece : Unescapes piece body)
    (hplain : st.heredocEscaped = false → body = piece) (hlead : lead = [] ∨ lead = ['\\'])
    (hpending : pending = if st.escaped then ['\\'] else []) (hreturn : c ≠ '\r')
    (hangles : ¬ ['<', '<'] <:+: gap ++ (piece ++ pending))
    (hstep : lexStep st c = some (st', token)) : Steps gap piece pending c st' token := by
  obtain ⟨val, mode, escaped, heredocEscaped, newLine⟩ := st
  obtain rfl : val = lead ++ body := hval
  obtain rfl : mode = .bare := hmode
  dsimp only at hplain hpending
  have hhead : (!heredocEscaped && startsWith (lead ++ body) ['<', '<']) = false := by
    cases heredocEscaped with
    | true => rfl
    | false =>
      obtain rfl := hplain rfl
      rw [Bool.not_false, Bool.true_and, Bool.eq_false_iff]
      intro hstart
      have hstart : ['<', '<'] <+: lead ++ body := List.isPrefixOf_iff_prefix.mp hstart
      rcases hlead with rfl | rfl
      · exact hangles ((hstart.trans (List.prefix_append body pending)).isInfix.trans
          (List.suffix_append gap _).isInfix)
      · exact absurd (List.cons_prefix_cons.mp hstart).1 (by decide)
  have hbody : body ≠ [] := by
    rintro rfl
    cases hpiece
    exact hne rfl
  have hval : lead ++ body ≠ [] := by simp [hbody]
  simp only [lexStep, hhead, Bool.false_eq_true, if_false] at hstep
  split_ifs at hstep with hslash
  · obtain ⟨rfl, rfl⟩ := Prod.mk.inj (Option.some.inj hstep)
    rw [Bool.and_eq_true, beq_iff_eq, Bool.not_eq_true'] at hslash
    obtain ⟨rfl, rfl⟩ := hslash
    rw [if_neg Bool.false_ne_true] at hpending
    subst hpending
    exact .more (.word rfl hgap rfl hne hpiece hplain hlead rfl) (by simp)
  · replace hstep := Option.some.inj hstep
    simp only [bareStep, if_neg hreturn, hval, false_and, if_false, reduceCtorEq] at hstep
    split_ifs at hstep with hspace hescaped hangle
    · obtain ⟨rfl, rfl⟩ := Prod.mk.inj hstep
      refine .token hgap ⟨lead, body, rfl, hpiece, hlead⟩ ?_ (isEdge_of_space hspace) ?_
      · rw [hpending]
        cases escaped
        · exact Or.inl rfl
        · exact Or.inr rfl
      · exact .idle rfl rfl (endsGap_snoc pending (isEdge_of_space hspace))
    · obtain ⟨rfl, rfl⟩ := Prod.mk.inj hstep
      rw [if_pos hescaped] at hpending
      subst hpending hangle
      refine .more (.word rfl hgap (List.append_assoc lead body ['<'])
        (by simp) (hpiece.append (.drop '<' (Or.inr rfl) .nil)) ?_ hlead rfl) (by simp)
      intro hfalse
      cases hfalse
    · obtain ⟨rfl, rfl⟩ := Prod.mk.inj hstep
      rw [if_pos hescaped] at hpending
      subst hpending
      refine .more (.word rfl hgap (List.append_assoc lead body ['\\', c])
        (by simp) (hpiece.append (unescapes_refl ['\\', c])) ?_ hlead rfl) (by simp)
      intro hfalse
      rw [hplain hfalse]
    · obtain ⟨rfl, rfl⟩ := Prod.mk.inj hstep
      rw [if_neg hescaped] at hpending
      subst hpending
      refine .more (.word rfl hgap (List.append_assoc lead body [c])
        (by simp) (hpiece.append (unescapes_refl [c])) ?_ hlead (if_neg hescaped).symm) (by simp)
      intro hfalse
      rw [hplain hfalse]

theorem steps_quoted (hmode : st.mode = .quoted) (hgap : EndsGap gap) (hval : st.val = lead ++ body)
    (hpiece : Unescapes piece body) (hlead : lead = [] ∨ lead = ['\\'])
    (hpending : pending = if st.escaped then ['\\'] else [])
    (hstep : lexStep st c = some (st', token)) : Steps gap piece pending c st' token := by
  obtain ⟨val, mode, escaped, heredocEscaped, newLine⟩ := st
  obtain rfl : val = lead ++ body := hval
  obtain rfl : mode = .quoted := hmode
  dsimp only at hpending
  simp only [lexStep] at hstep
  split_ifs at hstep with hescaped hquote hslash hquote
  · obtain ⟨rfl, rfl⟩ := Prod.mk.inj (Option.some.inj hstep)
    rw [if_pos hescaped] at hpending
    subst hpending hquote
    exact .more (.quoted rfl hgap (List.append_assoc lead body ['"'])
      (hpiece.append (.drop '"' (Or.inl rfl) .nil)) hlead rfl) (by simp)
  · obtain ⟨rfl, rfl⟩ := Prod.mk.inj (Option.some.inj hstep)
    rw [if_pos hescaped] at hpending
    subst hpending
    exact .more (.quoted rfl hgap (List.append_assoc lead body ['\\', c])
      (hpiece.append (unescapes_refl ['\\', c])) hlead rfl) (by simp)
  · obtain ⟨rfl, rfl⟩ := Prod.mk.inj (Option.some.inj hstep)
    rw [if_neg hescaped] at hpending
    subst hpending hslash
    exact .more (.quoted rfl hgap rfl hpiece hlead rfl) (by simp)
  · obtain ⟨rfl, rfl⟩ := Prod.mk.inj (Option.some.inj hstep)
    rw [if_neg hescaped] at hpending
    subst hpending hquote
    exact .token hgap ⟨lead, body, rfl, hpiece, hlead⟩ (Or.inl rfl) rfl
      (.idle rfl rfl (endsGap_snoc [] rfl))
  · obtain ⟨rfl, rfl⟩ := Prod.mk.inj (Option.some.inj hstep)
    rw [if_neg hescaped] at hpending
    subst hpending
    exact .more (.quoted rfl hgap (List.append_assoc lead body [c])
      (hpiece.append (unescapes_refl [c])) hlead (if_neg hescaped).symm) (by simp)

theorem steps_stray (hmode : st.mode = .quoted) (hgap : EndsGap gap) (hval : st.val = [])
    (hescaped : st.escaped = true) (hstep : lexStep st c = some (st', token)) :
    Steps gap [] [] c st' token := by
  obtain ⟨val, mode, escaped, heredocEscaped, newLine⟩ := st
  obtain rfl : val = [] := hval
  obtain rfl : mode = .quoted := hmode
  obtain rfl : escaped = true := hescaped
  simp only [lexStep, if_true] at hstep
  split_ifs at hstep with hquote
  · obtain ⟨rfl, rfl⟩ := Prod.mk.inj (Option.some.inj hstep)
    subst hquote
    exact .more (.quoted rfl hgap (List.nil_append ['"']).symm (unescapes_refl ['"']) (Or.inl rfl)
      rfl) (by simp)
  · obtain ⟨rfl, rfl⟩ := Prod.mk.inj (Option.some.inj hstep)
    exact .more (.quoted rfl hgap (List.singleton_append (x := '\\') (l := [c])).symm
      (unescapes_refl [c]) (Or.inr rfl) rfl) (by simp)

theorem steps_backquoted (hmode : st.mode = .backquoted) (hgap : EndsGap gap)
    (hval : st.val = piece) (hstep : lexStep st c = some (st', token)) :
    Steps gap piece [] c st' token := by
  obtain ⟨val, mode, escaped, heredocEscaped, newLine⟩ := st
  obtain rfl : val = piece := hval
  obtain rfl : mode = .backquoted := hmode
  simp only [lexStep] at hstep
  split_ifs at hstep with hback
  · obtain ⟨rfl, rfl⟩ := Prod.mk.inj (Option.some.inj hstep)
    subst hback
    exact .token hgap ⟨[], val, rfl, unescapes_refl val, Or.inl rfl⟩ (Or.inl rfl) rfl
      (.idle rfl rfl (endsGap_snoc [] rfl))
  · obtain ⟨rfl, rfl⟩ := Prod.mk.inj (Option.some.inj hstep)
    exact .more (.backquoted rfl hgap rfl) (by simp)

theorem lexStep_steps (h : Reads st gap piece pending) (hreturn : c ≠ '\r')
    (hangles : ¬ ['<', '<'] <:+: gap ++ (piece ++ pending))
    (hstep : lexStep st c = some (st', token)) : Steps gap piece pending c st' token := by
  cases h with
  | idle hval hmode hgap => exact steps_idle hval hmode hgap hreturn hstep
  | comment hval hmode => exact steps_comment hval hmode hreturn hstep
  | word hmode hgap hval hne hpiece hplain hlead hpending =>
    exact steps_word hmode hgap hval hne hpiece hplain hlead hpending hreturn hangles hstep
  | quoted hmode hgap hval hpiece hlead hpending =>
    exact steps_quoted hmode hgap hval hpiece hlead hpending hstep
  | stray hmode hgap hval hescaped => exact steps_stray hmode hgap hval hescaped hstep
  | backquoted hmode hgap hval => exact steps_backquoted hmode hgap hval hstep

theorem startsGap_pending (hpending : pending = [] ∨ pending = ['\\']) (hc : isEdge c = true) :
    StartsGap (pending ++ c :: rest) := by
  rcases hpending with rfl | rfl
  · exact Or.inr ⟨c, rest, rfl, hc⟩
  · exact Or.inr ⟨'\\', c :: rest, rfl, rfl⟩

theorem finish_cuts (h : Reads st gap piece pending) (hfinish : finish st = some tokens) :
    Cuts (gap ++ (piece ++ pending)) tokens := by
  have hnone : st.val = [] → Cuts (gap ++ (piece ++ pending)) tokens := by
    intro hval
    rw [finish, if_pos hval] at hfinish
    cases hfinish
    exact .nil _
  have hsome : ∀ {lead body : Str}, EndsGap gap → st.val = lead ++ body →
      Unescapes piece body → (lead = [] ∨ lead = ['\\']) →
      (pending = if st.escaped then ['\\'] else []) → (∀ marker, st.mode ≠ .heredoc marker) →
      Cuts (gap ++ (piece ++ pending)) tokens := by
    intro lead body hgap hval hpiece hlead hpending hmode
    by_cases hempty : st.val = []
    · exact hnone hempty
    · rw [finish, if_neg hempty] at hfinish
      have htokens : tokens = [⟨st.val, false, st.newLine⟩] := by
        split at hfinish
        next marker hmarker => exact absurd hmarker (hmode marker)
        next => exact (Option.some.inj hfinish).symm
      subst htokens
      refine .cons hgap ⟨lead, body, hval, hpiece, hlead⟩ ?_ (.nil pending)
      rw [hpending]
      split_ifs
      · exact Or.inr ⟨'\\', [], rfl, rfl⟩
      · exact Or.inl rfl
  cases h with
  | idle hval hmode hgap => exact hnone hval
  | comment hval hmode => exact hnone hval
  | word hmode hgap hval hne hpiece hplain hlead hpending =>
    exact hsome hgap hval hpiece hlead hpending (by simp [hmode])
  | quoted hmode hgap hval hpiece hlead hpending =>
    exact hsome hgap hval hpiece hlead hpending (by simp [hmode])
  | stray hmode hgap hval hescaped => exact hnone hval
  | backquoted hmode hgap hval =>
    by_cases hempty : st.val = []
    · exact hnone hempty
    · rw [finish, if_neg hempty, hmode] at hfinish
      cases hfinish
      exact .cons hgap ⟨[], piece, hval, unescapes_refl piece, Or.inl rfl⟩ (Or.inl rfl) (.nil [])

theorem lexFrom_cuts (h : Reads st gap piece pending) (hreturn : '\r' ∉ rest)
    (hangles : ¬ ['<', '<'] <:+: gap ++ (piece ++ (pending ++ rest)))
    (hlex : lexFrom st rest = some tokens) : Cuts (gap ++ (piece ++ (pending ++ rest))) tokens := by
  induction rest generalizing st gap piece pending tokens with
  | nil => simpa using finish_cuts h hlex
  | cons c rest ih =>
    rw [List.mem_cons, not_or] at hreturn
    rw [lexFrom] at hlex
    have hbefore : ¬ ['<', '<'] <:+: gap ++ (piece ++ pending) := by
      intro hbad
      refine hangles (hbad.trans ⟨[], c :: rest, by simp⟩)
    split at hlex
    next => cases hlex
    next st' token hstep =>
      obtain ⟨more, hmore, rfl⟩ := Option.map_eq_some_iff.mp hlex
      cases lexStep_steps h (Ne.symm hreturn.1) hbefore hstep with
      | more h' htext =>
        have hsame := congrArg (· ++ rest) htext
        simp only [List.append_assoc, List.singleton_append] at hsame
        rw [← hsame] at hangles ⊢
        exact ih h' hreturn.2 hangles hmore
      | token hgap hpiece hpending hc h' =>
        have hinner : ¬ ['<', '<'] <:+: (pending ++ [c]) ++ ([] ++ ([] ++ rest)) := by
          intro hbad
          exact hangles (hbad.trans ⟨gap ++ piece, [], by simp⟩)
        have hcuts := ih h' hreturn.2 hinner hmore
        rw [List.nil_append, List.nil_append, List.append_assoc, List.singleton_append] at hcuts
        exact .cons hgap hpiece (startsGap_pending hpending hc) hcuts

theorem lex_cuts {text : Str} (hreturn : '\r' ∉ text) (hangles : ¬ ['<', '<'] <:+: text)
    (hlex : lex text = some tokens) : Cuts ('\n' :: text) tokens := by
  have hnone : ∀ gap : Str, (∀ c ∈ gap, c ≠ '<') → ¬ ['<', '<'] <:+: gap ++ text := by
    intro gap hgap hbad
    induction gap with
    | nil => exact hangles hbad
    | cons c gap ih =>
      obtain ⟨hc, hgap⟩ := List.forall_mem_cons.mp hgap
      rcases List.infix_cons_iff.mp hbad with hbad | hbad
      · exact hc (List.cons_prefix_cons.mp hbad).1.symm
      · exact ih hgap hbad
  rw [lex] at hlex
  split_ifs at hlex with hmark
  · cases text with
    | nil => cases hmark
    | cons d text =>
      obtain rfl := Option.some.inj hmark
      have hgap : EndsGap ['\n', '\uFEFF'] := ⟨['\n'], '\uFEFF', rfl, rfl⟩
      have hread : Reads (LexState.start true) ['\n', '\uFEFF'] [] [] := .idle rfl rfl hgap
      exact lexFrom_cuts hread (fun h => hreturn (List.mem_cons_of_mem _ h))
        (hnone ['\n'] (by simp)) hlex
  · have hgap : EndsGap ['\n'] := ⟨[], '\n', rfl, rfl⟩
    have hread : Reads (LexState.start true) ['\n'] [] [] := .idle rfl rfl hgap
    exact lexFrom_cuts hread hreturn (hnone ['\n'] (by simp)) hlex

end Cuts

end SharedInfra.DemoBuild
