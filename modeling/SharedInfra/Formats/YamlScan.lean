import Mathlib.Data.List.Infix

/-!
# Scanning quoted scalars

A YAML text as characters and single-quoted scalars, in order, without its
comments.  A single-quoted scalar is read as the specification says: two quotes
are one, and the blanks and line breaks around a line break are folded.  A scalar
that reads as the text between its quotes has neither a quote nor a line break
(`plain_of_reads`), whatever follows it.

Double-quoted, literal and folded scalars, flow mappings, anchors, aliases, tags
and directives are not taken.
-/

namespace SharedInfra.Yaml

/-- `c-printable`: the characters that a text may hold. -/
def isPrintable (c : Char) : Bool :=
  let n := c.toNat
  n == 0x9 || n == 0xA || n == 0xD || (0x20 ≤ n && n ≤ 0x7E) || n == 0x85 ||
    (0xA0 ≤ n && n ≤ 0xFFFD) || 0x10000 ≤ n

def isBreak (c : Char) : Bool := c == '\n' || c == '\r'

def isWhite (c : Char) : Bool := c == ' ' || c == '\t' || isBreak c

/-- The line breaks of a text; a carriage return and a line feed are one. -/
def breaks : List Char → Nat
  | [] => 0
  | '\r' :: '\n' :: rest => breaks rest + 1
  | c :: rest => breaks rest + if isBreak c then 1 else 0

/-- What white space in a scalar stands for: itself within a line, and otherwise a space for one
line break and one line break less for more. -/
def folded (white : List Char) : List Char :=
  match breaks white with
  | 0 => white
  | 1 => [' ']
  | n + 1 => List.replicate n '\n'

/-- The characters of a text that stand for themselves between single quotes on one line. -/
def PlainText (s : List Char) : Prop := ∀ c ∈ s, c ≠ '\'' ∧ isBreak c = false

/-- A character outside comments and quoted scalars, or a quoted scalar. -/
inductive Token where
  | char (c : Char)
  | quoted (s : List Char)
  deriving DecidableEq

/-- Where the scanner stands. -/
inductive State where
  /-- Where a node may start. -/
  | start
  | dash
  | plain
  /-- After a blank in a plain scalar or a key. -/
  | blank
  | colon
  | comment
  /-- In a quoted scalar: what was read of it, and the white space after that. -/
  | quoted (out white : List Char)
  /-- After a quote in a quoted scalar. -/
  | closing (out : List Char)
  /-- After a quoted scalar, and whether a blank followed it. -/
  | after (blank : Bool)
  deriving DecidableEq

/-- Characters that start a node of a kind that is not taken. -/
def isIndicator (c : Char) : Bool :=
  c ∈ ['"', '{', '}', ']', '&', '*', '!', '|', '>', '%', '@', Char.ofNat 0x60, '?', '\t', '\r']

def stepStart (c : Char) : Option (State × List Token) :=
  if c = ' ' ∨ c = '\n' ∨ c = '[' then some (.start, [.char c])
  else if c = '#' then some (.comment, [])
  else if c = '\'' then some (.quoted [] [], [])
  else if c = '-' then some (.dash, [.char c])
  else if isIndicator c then none
  else some (.plain, [.char c])

/-- In a plain scalar or a key; `none` for what ends a line of another kind. -/
def stepPlain (c : Char) : State × List Token :=
  if c = '\n' then (.start, [.char c])
  else if c = ':' then (.colon, [.char c])
  else if c = ' ' then (.blank, [.char c])
  else (.plain, [.char c])

def stepAfter (blank : Bool) (c : Char) : Option (State × List Token) :=
  if c = '\n' ∨ c = ',' then some (.start, [.char c])
  else if c = ' ' then some (.after true, [.char c])
  else if c = ']' then some (.after false, [.char c])
  else if c = '#' ∧ blank then some (.comment, [])
  else none

def step : State → Char → Option (State × List Token)
  | .start, c => stepStart c
  | .dash, c => if c = ' ' ∨ c = '\n' then some (.start, [.char c]) else some (stepPlain c)
  | .plain, c => some (stepPlain c)
  | .blank, c => if c = '#' then some (.comment, []) else some (stepPlain c)
  | .colon, c => if c = ' ' then some (.start, [.char c]) else some (stepPlain c)
  | .comment, c => if c = '\n' then some (.start, [.char c]) else some (.comment, [])
  | .quoted out white, c =>
    if c = '\'' then some (.closing (out ++ folded white), [])
    else if isWhite c then some (.quoted out (white ++ [c]), [])
    else some (.quoted (out ++ folded white ++ [c]) [], [])
  | .closing out, c =>
    if c = '\'' then some (.quoted (out ++ [c]) [], [])
    else (stepAfter false c).map fun next => (next.1, .quoted out :: next.2)
  | .after blank, c => stepAfter blank c

/-- The tokens of a text from a state, or `none` for a text that is not taken. -/
def scan : State → List Char → Option (List Token)
  | .quoted _ _, [] => none
  | .closing out, [] => some [.quoted out]
  | _, [] => some []
  | state, c :: rest =>
    match step state c with
    | none => none
    | some (next, tokens) => (scan next rest).map (tokens ++ ·)

def scalars (tokens : List Token) : List (List Char) :=
  tokens.filterMap fun
    | .char _ => none
    | .quoted s => some s

section Folding

variable {white : List Char}

theorem breaks_pos_iff : 0 < breaks white ↔ ∃ c ∈ white, isBreak c = true := by
  induction white using breaks.induct with
  | case1 => simp [breaks]
  | case2 rest ih =>
    refine iff_of_true (by simp [breaks]) ⟨'\r', List.mem_cons_self, rfl⟩
  | case3 c rest hnot ih =>
    rw [breaks]
    · cases hc : isBreak c <;> simp [hc, ih]
    · exact hnot

theorem breaks_le_count : breaks white ≤ white.countP isBreak := by
  induction white using breaks.induct with
  | case1 => simp [breaks]
  | case2 rest ih =>
    have hfeed : isBreak '\n' = true := rfl
    have hreturn : isBreak '\r' = true := rfl
    simp only [breaks, List.countP_cons, hfeed, hreturn, if_pos]
    omega
  | case3 c rest hnot ih =>
    rw [breaks, List.countP_cons]
    · omega
    · exact hnot

theorem folded_of_no_break (h : breaks white = 0) : folded white = white := by
  rw [folded, h]

theorem countP_folded (h : 0 < breaks white) :
    (folded white).countP isBreak < breaks white := by
  rw [folded]
  rcases hbreaks : breaks white with _ | _ | n
  · omega
  · exact Nat.zero_lt_one
  · have hcount : (List.replicate (n + 1) '\n').countP isBreak ≤ n + 1 := by
      simpa using List.countP_le_length (p := isBreak) (l := List.replicate (n + 1) '\n')
    exact Nat.lt_succ_of_le hcount

theorem folded_ne (h : 0 < breaks white) : folded white ≠ white := by
  intro heq
  have hfewer := countP_folded h
  rw [heq] at hfewer
  exact absurd breaks_le_count (Nat.not_le.mpr hfewer)

theorem isWhite_folded (h : ∀ c ∈ white, isWhite c = true) :
    ∀ c ∈ folded white, isWhite c = true := by
  intro c hc
  rw [folded] at hc
  split at hc
  · exact h c hc
  · rw [List.mem_singleton.mp hc]
    rfl
  · rw [List.eq_of_mem_replicate hc]
    rfl

theorem folded_ne_nil (h : white ≠ []) : folded white ≠ [] := by
  rw [folded]
  rcases breaks white with _ | _ | n
  · exact h
  · exact List.cons_ne_nil _ _
  · exact List.cons_ne_nil _ _

theorem takeWhile_white {rest : List Char} (h : ∀ c ∈ white, isWhite c = true)
    (hrest : ∀ c ∈ rest.head?, isWhite c = false) :
    (white ++ rest).takeWhile isWhite = white := by
  rw [List.takeWhile_append_of_pos h]
  cases rest with
  | nil => simp
  | cons c rest =>
    have hc := hrest c rfl
    simp [hc]

end Folding

section Reading

variable {out white s rest x : List Char} {c : Char}

def Reads (state : State) (x s : List Char) : Prop :=
  ∃ tokens, scan state x = some (.quoted s :: tokens)

theorem scan_cons (state : State) (c : Char) (rest : List Char) :
    scan state (c :: rest) =
      match step state c with
      | none => none
      | some (next, tokens) => (scan next rest).map (tokens ++ ·) := by
  cases state <;> rfl

theorem scan_of_silent {state next : State} (h : step state c = some (next, [])) :
    scan state (c :: rest) = scan next rest := by
  rw [scan_cons, h]
  simp

theorem reads_quote :
    Reads (.quoted out white) ('\'' :: rest) s ↔ Reads (.closing (out ++ folded white)) rest s := by
  have hstep : step (.quoted out white) '\'' = some (.closing (out ++ folded white), []) := rfl
  rw [Reads, Reads, scan_of_silent hstep]

theorem reads_white (h : isWhite c = true) :
    Reads (.quoted out white) (c :: rest) s ↔ Reads (.quoted out (white ++ [c])) rest s := by
  have hquote : c ≠ '\'' := by
    rintro rfl
    cases h
  have hstep : step (.quoted out white) c = some (.quoted out (white ++ [c]), []) := by
    rw [step, if_neg hquote, if_pos h]
  rw [Reads, Reads, scan_of_silent hstep]

theorem reads_other (hquote : c ≠ '\'') (h : isWhite c = false) :
    Reads (.quoted out white) (c :: rest) s ↔
      Reads (.quoted (out ++ folded white ++ [c]) []) rest s := by
  have hstep : step (.quoted out white) c =
      some (.quoted (out ++ folded white ++ [c]) [], []) := by
    rw [step, if_neg hquote, if_neg (by simp [h])]
  rw [Reads, Reads, scan_of_silent hstep]

theorem reads_closing_quote :
    Reads (.closing out) ('\'' :: rest) s ↔ Reads (.quoted (out ++ ['\'']) []) rest s := by
  have hstep : step (.closing out) '\'' = some (.quoted (out ++ ['\'']) [], []) := rfl
  rw [Reads, Reads, scan_of_silent hstep]

theorem eq_of_reads_closing (hrest : x.head? ≠ some '\'') (h : Reads (.closing out) x s) :
    s = out := by
  obtain ⟨tokens, h⟩ := h
  cases x with
  | nil => exact (Token.quoted.inj (List.cons.inj (Option.some.inj h)).1).symm
  | cons c rest =>
    have hquote : c ≠ '\'' := fun heq => hrest (by rw [heq]; rfl)
    rw [scan_cons, step, if_neg hquote] at h
    cases hafter : stepAfter false c with
    | none => simp [hafter] at h
    | some next =>
      simp only [hafter, Option.map_some, Option.map_eq_some_iff] at h
      obtain ⟨more, -, h⟩ := h
      exact (Token.quoted.inj (List.cons.inj h).1).symm

theorem prefix_of_reads :
    (∀ out white, Reads (.quoted out white) x s → out <+: s) ∧
      ∀ out, Reads (.closing out) x s → out <+: s := by
  induction x with
  | nil =>
    refine ⟨?_, fun out h => ?_⟩
    · rintro out white ⟨tokens, h⟩
      cases h
    · rw [eq_of_reads_closing (by simp) h]
  | cons c rest ih =>
    refine ⟨fun out white h => ?_, fun out h => ?_⟩
    · by_cases hquote : c = '\''
      · subst hquote
        exact (List.prefix_append _ _).trans (ih.2 _ (reads_quote.mp h))
      · cases hwhite : isWhite c with
        | true => exact ih.1 _ _ ((reads_white hwhite).mp h)
        | false =>
          have hlonger := ih.1 _ _ ((reads_other hquote hwhite).mp h)
          rw [List.append_assoc] at hlonger
          exact (List.prefix_append _ _).trans hlonger
    · by_cases hquote : c = '\''
      · subst hquote
        exact (List.prefix_append _ _).trans (ih.1 _ _ (reads_closing_quote.mp h))
      · rw [eq_of_reads_closing (by simpa using hquote) h]

theorem exists_of_reads_closing (h : Reads (.closing out) x s) :
    ∃ tail, s = out ++ tail ∧ ∀ c ∈ tail.head?, c = '\'' := by
  by_cases hquote : x.head? = some '\''
  · obtain ⟨rest, rfl⟩ : ∃ rest, x = '\'' :: rest := by
      cases x with
      | nil => cases hquote
      | cons c rest => exact ⟨rest, by rw [Option.some.inj hquote]⟩
    obtain ⟨tail, rfl⟩ := prefix_of_reads.1 _ _ (reads_closing_quote.mp h)
    exact ⟨'\'' :: tail, by simp, by simp⟩
  · exact ⟨[], by simp [eq_of_reads_closing hquote h], by simp⟩

theorem white_of_reads (hwhite : ∀ c ∈ white, isWhite c = true) (hne : white ≠ [])
    (h : Reads (.quoted out white) x s) : ∃ d tail, s = out ++ d :: tail ∧ isWhite d = true := by
  have hread : ∀ {white : List Char}, (∀ c ∈ white, isWhite c = true) → white ≠ [] →
      out ++ folded white <+: s → ∃ d tail, s = out ++ d :: tail ∧ isWhite d = true := by
    rintro white hwhite hne ⟨tail, rfl⟩
    obtain ⟨d, more, hfolded⟩ := List.exists_cons_of_ne_nil (folded_ne_nil hne)
    refine ⟨d, more ++ tail, by simp [hfolded], ?_⟩
    exact isWhite_folded hwhite d (hfolded ▸ List.mem_cons_self)
  induction x generalizing white with
  | nil =>
    obtain ⟨tokens, h⟩ := h
    cases h
  | cons c rest ih =>
    by_cases hquote : c = '\''
    · subst hquote
      exact hread hwhite hne (prefix_of_reads.2 _ (reads_quote.mp h))
    · cases hc : isWhite c with
      | true =>
        refine ih ?_ (by simp) ((reads_white hc).mp h)
        simpa [or_imp, forall_and, hc] using hwhite
      | false =>
        have hlonger := prefix_of_reads.1 _ _ ((reads_other hquote hc).mp h)
        exact hread hwhite hne ((List.prefix_append _ _).trans hlonger)

theorem ne_of_break (hwhite : ∀ c ∈ white, isWhite c = true) (hbreak : 0 < breaks white)
    (hrest : rest.head? ≠ some '\'')
    (h : Reads (.quoted out white) (x ++ '\'' :: rest) s) : s ≠ out ++ (white ++ x) := by
  -- after the white space, what is read and the text go on without any
  have hcut : ∀ {white tail y : List Char}, (∀ c ∈ white, isWhite c = true) → 0 < breaks white →
      (∀ c ∈ tail.head?, isWhite c = false) → (∀ c ∈ y.head?, isWhite c = false) →
      out ++ folded white ++ tail ≠ out ++ (white ++ y) := by
    intro white tail y hwhite hbreak htail hy heq
    rw [List.append_assoc] at heq
    have htake := congrArg (List.takeWhile isWhite) (List.append_cancel_left heq)
    rw [takeWhile_white (isWhite_folded hwhite) htail, takeWhile_white hwhite hy] at htake
    exact folded_ne hbreak htake
  induction x generalizing white with
  | nil =>
    have hend := eq_of_reads_closing hrest (reads_quote.mp h)
    have hne := @hcut white [] [] hwhite hbreak (by simp) (by simp)
    rw [hend]
    simpa using hne
  | cons c x ih =>
    by_cases hquote : c = '\''
    · subst hquote
      obtain ⟨tail, rfl, hhead⟩ := exists_of_reads_closing (reads_quote.mp h)
      refine hcut hwhite hbreak (fun c hc => ?_) (by simp [isWhite, isBreak])
      rw [hhead c hc]
      rfl
    · cases hc : isWhite c with
      | true =>
        have hmore : 0 < breaks (white ++ [c]) := by
          obtain ⟨d, hd, hdbreak⟩ := breaks_pos_iff.mp hbreak
          exact breaks_pos_iff.mpr ⟨d, List.mem_append_left _ hd, hdbreak⟩
        have hall : ∀ d ∈ white ++ [c], isWhite d = true := by
          simpa [or_imp, forall_and, hc] using hwhite
        have hne := ih hall hmore ((reads_white hc).mp h)
        simpa using hne
      | false =>
        obtain ⟨tail, rfl⟩ := prefix_of_reads.1 _ _ ((reads_other hquote hc).mp h)
        rw [List.append_assoc _ [c]]
        exact hcut hwhite hbreak (by simpa using hc) (by simpa using hc)

theorem next_of_reads (hrest : rest.head? ≠ some '\'') (h : Reads (.quoted out []) rest s) :
    ∃ d tail, s = out ++ d :: tail ∧ d ≠ '\'' := by
  cases rest with
  | nil =>
    obtain ⟨tokens, h⟩ := h
    cases h
  | cons c x =>
    have hquote : c ≠ '\'' := fun heq => hrest (by rw [heq]; rfl)
    cases hc : isWhite c with
    | true =>
      have hone : ∀ d ∈ [c], isWhite d = true := by simpa using hc
      obtain ⟨d, tail, hs, hd⟩ := white_of_reads hone (List.cons_ne_nil _ _)
        ((reads_white hc).mp h)
      refine ⟨d, tail, hs, ?_⟩
      rintro rfl
      cases hd
    | false =>
      obtain ⟨tail, rfl⟩ := prefix_of_reads.1 _ _ ((reads_other hquote hc).mp h)
      exact ⟨c, tail, by simp [folded, breaks], hquote⟩

theorem breaks_append_of_not_break (hbreak : breaks white = 0) (hc : isBreak c = false) :
    breaks (white ++ [c]) = 0 := by
  by_contra hpos
  obtain ⟨d, hd, hdbreak⟩ := breaks_pos_iff.mp (Nat.pos_of_ne_zero hpos)
  rcases List.mem_append.mp hd with hd | hd
  · have hpos := breaks_pos_iff.mpr ⟨d, hd, hdbreak⟩
    omega
  · rw [List.mem_singleton.mp hd, hc] at hdbreak
    cases hdbreak

theorem head_of_lag {n : Nat} {tail y : List Char} (hn : 0 < n)
    (h : out ++ (List.replicate n '\'' ++ y) = out ++ c :: tail) : c = '\'' := by
  obtain ⟨k, rfl⟩ : ∃ k, n = k + 1 := ⟨n - 1, by omega⟩
  have hcons := List.append_cancel_left h
  rw [List.replicate_succ, List.cons_append] at hcons
  exact (List.cons.inj hcons).1.symm

theorem replicate_append_cons (n : Nat) (y : List Char) :
    List.replicate n c ++ c :: y = List.replicate (n + 1) c ++ y := by
  rw [List.replicate_succ', List.append_assoc]
  rfl

theorem plain_cons (hquote : c ≠ '\'') (hline : isBreak c = false) (h : PlainText x) :
    PlainText (c :: x) := by
  intro d hd
  rcases List.mem_cons.mp hd with rfl | hd
  · exact ⟨hquote, hline⟩
  · exact h d hd

/-- A scalar that reads as its text is plain.  The induction is on the text; a scalar that is behind
by some quotes, since each two are read as one, never catches up. -/
theorem plain_of_lag {n : Nat} (hwhite : ∀ c ∈ white, isWhite c = true) (hbreak : breaks white = 0)
    (hlag : n = 0 ∨ white = []) (hrest : rest.head? ≠ some '\'')
    (h : Reads (.quoted out white) (x ++ '\'' :: rest)
      (out ++ (List.replicate n '\'' ++ (white ++ x)))) : n = 0 ∧ PlainText x := by
  induction hlength : x.length using Nat.strong_induction_on
    generalizing x out white n with
  | _ length ih =>
  rcases x with _ | ⟨c, x⟩
  · have hend := eq_of_reads_closing hrest (reads_quote.mp h)
    rw [folded_of_no_break hbreak] at hend
    have hlen := congrArg List.length hend
    simp only [List.length_append, List.append_nil, List.length_replicate] at hlen
    exact ⟨by omega, fun c hc => by cases hc⟩
  · have hlt : x.length < length := by
      rw [← hlength]
      exact Nat.lt_succ_self _
    by_cases hquote : c = '\''
    · -- the scalar ends here, which is too short, or goes on and is behind by one more quote
      exfalso
      subst hquote
      have hclosing := reads_quote.mp h
      rw [folded_of_no_break hbreak] at hclosing
      have hmore : out ++ (List.replicate n '\'' ++ (white ++ '\'' :: x)) =
          (out ++ white ++ ['\'']) ++ (List.replicate n '\'' ++ x) := by
        rcases hlag with rfl | rfl
        · simp
        · simp only [List.nil_append, List.append_nil, List.append_assoc, List.singleton_append]
          rw [replicate_append_cons, List.replicate_succ, List.cons_append]
      rcases x with _ | ⟨d, x⟩
      · obtain ⟨d, tail, hs, hd⟩ := next_of_reads hrest (reads_closing_quote.mp hclosing)
        rw [hmore, List.append_nil] at hs
        have hmem : d ∈ List.replicate n '\'' := by
          rw [List.append_cancel_left hs]
          exact List.mem_cons_self
        exact hd (List.eq_of_mem_replicate hmem)
      · by_cases hd : d = '\''
        · subst hd
          have hgoes := reads_closing_quote.mp hclosing
          rw [hmore, replicate_append_cons] at hgoes
          have hlast := @ih x.length (by simp at hlt; omega) _ [] x (n + 1) (by simp) rfl
            (Or.inr rfl) hgoes rfl
          exact absurd hlast.1 (Nat.succ_ne_zero n)
        · have hend := eq_of_reads_closing (by simpa using hd) hclosing
          have hlen := congrArg List.length hend
          simp only [List.length_append, List.length_cons] at hlen
          omega
    · have hn : n = 0 := by
        by_contra hpos
        obtain rfl : white = [] := hlag.resolve_left hpos
        cases hc : isWhite c with
        | true =>
          have hone : ∀ d ∈ [c], isWhite d = true := by simpa using hc
          obtain ⟨d, tail, hs, hd⟩ := white_of_reads hone (List.cons_ne_nil _ _)
            ((reads_white hc).mp h)
          rw [head_of_lag (Nat.pos_of_ne_zero hpos) hs] at hd
          cases hd
        | false =>
          obtain ⟨tail, hs⟩ := prefix_of_reads.1 _ _ ((reads_other hquote hc).mp h)
          rw [List.append_assoc, List.append_assoc] at hs
          exact hquote (head_of_lag (Nat.pos_of_ne_zero hpos) hs.symm)
      subst hn
      refine ⟨rfl, ?_⟩
      cases hc : isWhite c with
      | true =>
        have hall : ∀ d ∈ white ++ [c], isWhite d = true := by
          simpa [or_imp, forall_and, hc] using hwhite
        have hread := (reads_white hc).mp h
        have hs : out ++ (List.replicate 0 '\'' ++ (white ++ c :: x)) =
            out ++ ((white ++ [c]) ++ x) := by simp
        rw [hs] at hread
        have hline : isBreak c = false := by
          by_contra hbroken
          have hpos : 0 < breaks (white ++ [c]) :=
            breaks_pos_iff.mpr ⟨c, by simp, by simpa using hbroken⟩
          exact ne_of_break hall hpos hrest hread rfl
        exact plain_cons hquote hline (@ih x.length hlt out (white ++ [c]) x 0 hall
          (breaks_append_of_not_break hbreak hline) (Or.inl rfl) hread rfl).2
      | false =>
        have hread := (reads_other hquote hc).mp h
        rw [folded_of_no_break hbreak] at hread
        have hs : out ++ (List.replicate 0 '\'' ++ (white ++ c :: x)) =
            (out ++ white ++ [c]) ++ x := by simp
        rw [hs] at hread
        have hline : isBreak c = false := by
          cases hbroken : isBreak c with
          | false => rfl
          | true =>
            rw [isWhite, hbroken, Bool.or_true] at hc
            cases hc
        exact plain_cons hquote hline (@ih x.length hlt _ [] x 0 (by simp) rfl (Or.inr rfl)
          hread rfl).2

theorem plain_of_reads (hrest : rest.head? ≠ some '\'')
    (h : Reads (.quoted [] []) (x ++ '\'' :: rest) x) : PlainText x :=
  (@plain_of_lag [] [] rest x 0 (by simp) rfl (Or.inl rfl) hrest h).2

theorem scan_plain (h : PlainText x) (hwhite : breaks white = 0) :
    scan (.quoted out white) (x ++ '\'' :: rest) =
      scan (.closing (out ++ (white ++ x))) rest := by
  induction x generalizing out white with
  | nil =>
    have hstep : step (.quoted out white) '\'' = some (.closing (out ++ folded white), []) := rfl
    rw [List.nil_append, scan_of_silent hstep, folded_of_no_break hwhite, List.append_nil]
  | cons c x ih =>
    obtain ⟨hquote, hline⟩ := h c List.mem_cons_self
    have hplain : PlainText x := fun d hd => h d (List.mem_cons_of_mem _ hd)
    cases hc : isWhite c with
    | true =>
      have hstep : step (.quoted out white) c = some (.quoted out (white ++ [c]), []) := by
        rw [step, if_neg hquote, if_pos hc]
      rw [List.cons_append, scan_of_silent hstep,
        ih hplain (breaks_append_of_not_break hwhite hline)]
      simp
    | false =>
      have hstep : step (.quoted out white) c =
          some (.quoted (out ++ folded white ++ [c]) [], []) := by
        rw [step, if_neg hquote, if_neg (by simp [hc])]
      rw [List.cons_append, scan_of_silent hstep, ih hplain rfl, folded_of_no_break hwhite]
      simp

end Reading

end SharedInfra.Yaml
