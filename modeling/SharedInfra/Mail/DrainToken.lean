import SharedInfra.Python.Base64
import SharedInfra.Python.LastLine
import SharedInfra.Mail.RecordLines

/-!
# The drain token

`render_shim_env.py` reads a contract's secret from the credentials file, and mints a token
where there is none: it appends one line to whatever the file holds (`ensureDrainToken`).
The other secrets survive that exactly where the last line of the file is blank and the label
is one that a line can hold (`keepsCredentials_iff`).
-/

namespace SharedInfra.Mail
namespace ShimEnvironment

open Python Effects Prog

/-- The refusals: the `RuntimeError` of a line without a colon, and the `ContractError` of an
empty secret. -/
inductive Refusal where
  | malformed (path : Str) (line : Nat)
  | emptySecret (label path : Str)
deriving DecidableEq

/-- The loop of `find_credential_secret`, from a line number on. -/
def findInLines (path label : Str) : Nat → List Str → Except Refusal (Option Str)
  | _, [] => .ok none
  | n, raw :: rest =>
    if (strip raw).isEmpty then findInLines path label (n + 1) rest
    else match splitColon (strip raw) with
      | none => .error (.malformed path n)
      | some (found, secret) =>
        if found = label then .ok (some secret) else findInLines path label (n + 1) rest

def findCredentialSecret (path label text : Str) : Except Refusal (Option Str) :=
  findInLines path label 1 (splitlines text)

/-- The 32 bytes of the generator. -/
abbrev Entropy : Type := { raw : Bytes // raw.length = 32 }

/-- A character of the URL-safe alphabet. -/
def urlSafeChar (b : UInt8) : Char :=
  if b = 43 then '-' else if b = 47 then '_' else Char.ofNat b.toNat

/-- `secrets.token_urlsafe(32)`: URL-safe base64 without its padding. -/
def tokenUrlsafe (entropy : Entropy) : Str :=
  ((b64encode entropy.1).rdropWhile fun b => decide (b = b64pad)).map urlSafeChar

inductive CredentialsOp where
  | exists_
  | read
  | makedirs
  | append (text : Str)
  | chmod (mode : Nat)

def CredentialsOp.writes : CredentialsOp → Bool
  | .exists_ | .read => false
  | .makedirs | .append _ | .chmod _ => true

abbrev Answer : CredentialsOp → Type
  | .exists_ => Bool
  | .read => Str
  | _ => Unit

structure CredentialsFile where
  text : Option Str
  mode : Nat
deriving DecidableEq

/-- What a text-mode read of the file gives; a missing file is an empty one. -/
def CredentialsFile.contents (f : CredentialsFile) : Str := universalNewlines (f.text.getD [])

def CredentialsFile.handle : Handler CredentialsOp Answer CredentialsFile
  | f, .exists_ => (f.text.isSome, f)
  | f, .read => (f.contents, f)
  | f, .makedirs => ((), f)
  | f, .append text => ((), { f with text := some (f.text.getD [] ++ text) })
  | f, .chmod mode => ((), { f with mode := mode })

abbrev Script (α : Type) := Prog CredentialsOp Answer Refusal α

def call (op : CredentialsOp) : Script (Answer op) := ask op

/-- `os.path.dirname`. -/
def dirname (path : Str) : Str :=
  let head := path.rdropWhile (· != '/')
  if head.all (· = '/') then head else head.rdropWhile (· = '/')

def appendCredentialAtomic (path label secret : Str) : Script Unit := do
  if (dirname path).isEmpty then pure () else call .makedirs
  let _ ← call .exists_
  call (.append (secretLine label secret))
  call (.chmod 0o600)

def refuseEmptySecret (secret label path : Str) : Script Str :=
  if secret.isEmpty then raise (.emptySecret label path) else pure secret

/-- `ensure_drain_token`, with what the generator would return. -/
def ensureDrainToken (path label : Str) (entropy : Entropy) : Script Str := do
  let there ← call .exists_
  let text ← if there then call .read else pure []
  match findCredentialSecret path label text with
  | .error e => raise e
  | .ok (some existing) => refuseEmptySecret existing label path
  | .ok none =>
    appendCredentialAtomic path label (tokenUrlsafe entropy)
    pure (tokenUrlsafe entropy)

/-- Every line that is not blank holds a colon. -/
def Recorded (text : Str) : Prop := ∀ line ∈ splitlines text, strip line ≠ [] → ':' ∈ line

/-- Minting keeps the file: a token that is returned is found under its label, every other label
has the secret it had, and a second call returns the token again and writes nothing. -/
def KeepsCredentials (path label : Str) (entropy : Entropy) (f : CredentialsFile) : Prop :=
  ∀ token f', (ensureDrainToken path label entropy).run CredentialsFile.handle f = (.ok token, f') →
    findCredentialSecret path label f'.contents = .ok (some token) ∧
    (∀ other, other ≠ label → findCredentialSecret path other f'.contents =
      findCredentialSecret path other f.contents) ∧
    ∀ entropy', (ensureDrainToken path label entropy').run CredentialsFile.handle f' =
        (.ok token, f') ∧
      ∀ x ∈ (ensureDrainToken path label entropy').trace CredentialsFile.handle f',
        x.1.writes = false

/-- A label that a line can hold: without a colon or a line break, and not starting with a
space. -/
structure LineLabel (label : Str) : Prop where
  colon : ':' ∉ label
  noBreak : ∀ c ∈ label, isLineBreak c = false
  head : ∀ c, label.head? = some c → isSpace c = false

/-- What has been recorded before, or a place where a line of its own can be written. -/
def Keepable (path label : Str) (f : CredentialsFile) : Prop :=
  (∃ secret, findCredentialSecret path label f.contents = .ok (some secret)) ∨
    LineLabel label ∧ ∀ c ∈ lastLine f.contents, isSpace c = true

section Lookup

variable {path label other text : Str} {lines : List Str}

/-- The labels and secrets of the lines. -/
def entries (lines : List Str) : List (Str × Str) :=
  lines.filterMap fun raw => splitColon (strip raw)

theorem splitColon_nil : splitColon [] = none := rfl

theorem splitColon_eq_none_iff {line : Str} : splitColon line = none ↔ ':' ∉ line := by
  rw [splitColon]
  cases hdrop : line.dropWhile (· != ':') with
  | nil =>
    rw [List.dropWhile_eq_nil_iff] at hdrop
    exact iff_of_true rfl fun hmem => by simpa using hdrop _ hmem
  | cons c rest =>
    refine iff_of_false (by simp) (not_not.mpr ?_)
    have hc : (c != ':') = false := by
      have hne : line.dropWhile (· != ':') ≠ [] := by rw [hdrop]; exact List.cons_ne_nil _ _
      simpa only [hdrop, List.head_cons] using List.head_dropWhile_not _ hne
    have hmem : c ∈ line.dropWhile (· != ':') := by rw [hdrop]; exact List.mem_cons_self
    rw [bne_eq_false_iff_eq.mp hc] at hmem
    exact (List.dropWhile_suffix (· != ':')).subset hmem

theorem colon_mem_strip {line : Str} : ':' ∈ strip line ↔ ':' ∈ line :=
  ⟨fun h => (strip_sublist line).subset h, fun h => (isSpace_or_mem_strip h).resolve_left (by decide)⟩

theorem findInLines_eq (h : ∀ line ∈ lines, strip line ≠ [] → ':' ∈ line) (n : Nat) :
    findInLines path label n lines = .ok ((entries lines).lookup label) := by
  induction lines generalizing n with
  | nil => rfl
  | cons raw rest ih =>
    obtain ⟨hraw, hrest⟩ := List.forall_mem_cons.mp h
    rw [findInLines, entries, List.filterMap_cons]
    split_ifs with hblank
    · rw [List.isEmpty_iff.mp hblank, splitColon_nil]
      exact ih hrest _
    · have hcolon := colon_mem_strip.mpr (hraw (by simpa using hblank))
      cases hsplit : splitColon (strip raw) with
      | none => exact absurd hcolon (splitColon_eq_none_iff.mp hsplit)
      | some entry =>
        obtain ⟨found, secret⟩ := entry
        simp only [List.lookup_cons]
        by_cases hfound : found = label
        · simp [hfound]
        · have hne : (label == found) = false := by simpa using Ne.symm hfound
          simp only [if_neg hfound, hne]
          exact ih hrest _

theorem find_eq (h : Recorded text) :
    findCredentialSecret path label text = .ok ((entries (splitlines text)).lookup label) :=
  findInLines_eq h 1

theorem lineLabel_of_mem {secret : Str} (h : (label, secret) ∈ entries (splitlines text)) :
    LineLabel label := by
  obtain ⟨raw, hraw, hsplit⟩ := List.mem_filterMap.mp h
  have hlabel : label = (strip raw).takeWhile (· != ':') := by
    rw [splitColon] at hsplit
    split at hsplit
    · cases hsplit
    · exact (congrArg Prod.fst (Option.some.inj hsplit)).symm
  have hsub : ∀ c ∈ label, c ∈ strip raw := fun c hc =>
    (List.takeWhile_prefix _).subset (hlabel ▸ hc)
  refine ⟨fun hmem => ?_, fun c hc => ?_, fun c hc => ?_⟩
  · rw [hlabel] at hmem
    simpa using List.mem_takeWhile_imp hmem
  · exact noBreak_of_mem_splitlines text raw hraw c ((strip_sublist raw).subset (hsub c hc))
  · refine isSpace_head_strip (s := raw) ?_
    rw [hlabel] at hc
    cases hstrip : strip raw with
    | nil =>
      rw [hstrip] at hc
      cases hc
    | cons d rest =>
      rw [hstrip, List.takeWhile_cons] at hc
      split_ifs at hc
      · exact hc
      · cases hc

end Lookup

section Tokens

theorem isSpace_urlSafeChar (n : Nat) : isSpace (urlSafeChar (b64char n)) = false := by
  by_cases h : n < 64
  · have hall : ∀ n < 64, isSpace (urlSafeChar (b64char n)) = false := by decide
    exact hall n h
  · have hchar : b64char n = 47 := by
      rw [b64char, if_neg (by omega), if_neg (by omega), if_neg (by omega), if_neg (by omega)]
      rfl
    rw [hchar]
    decide

theorem mem_b64group {a b c x : UInt8} (h : x ∈ b64group a b c) : ∃ n, x = b64char n := by
  simp only [b64group, List.mem_cons, List.not_mem_nil, or_false] at h
  rcases h with rfl | rfl | rfl | rfl <;> exact ⟨_, rfl⟩

theorem mem_b64encode {data : Bytes} {x : UInt8} (h : x ∈ b64encode data) :
    x = b64pad ∨ ∃ n, x = b64char n := by
  fun_induction b64encode data with
  | case1 a b c rest ih =>
    rcases List.mem_append.mp h with h | h
    · exact Or.inr (mem_b64group h)
    · exact ih h
  | case2 a b =>
    rcases List.mem_append.mp h with h | h
    · exact Or.inr (mem_b64group (List.mem_of_mem_take h))
    · exact Or.inl (by simpa using h)
  | case3 a =>
    rcases List.mem_append.mp h with h | h
    · exact Or.inr (mem_b64group (List.mem_of_mem_take h))
    · exact Or.inl (by simpa using h)
  | case4 => cases h

variable {raw : Bytes}

theorem isSpace_of_mem_urlSafe {c : Char}
    (hc : c ∈ ((b64encode raw).rdropWhile fun b => decide (b = b64pad)).map urlSafeChar) :
    isSpace c = false := by
  obtain ⟨x, hx, rfl⟩ := List.mem_map.mp hc
  rcases mem_b64encode ((List.rdropWhile_prefix _ _).subset hx) with rfl | ⟨n, rfl⟩
  · decide
  · exact isSpace_urlSafeChar n

theorem urlSafe_ne_nil (h : 3 ≤ raw.length) :
    ((b64encode raw).rdropWhile fun b => decide (b = b64pad)).map urlSafeChar ≠ [] := by
  match raw, h with
  | a :: b :: c :: rest, _ =>
    intro hnil
    rw [List.map_eq_nil_iff, List.rdropWhile_eq_nil_iff] at hnil
    have hlt : (a.toNat * 65536 + b.toNat * 256 + c.toNat) / 262144 < 64 := by
      have ha := a.toNat_lt
      have hb := b.toNat_lt
      have hc := c.toNat_lt
      omega
    have hpad := hnil (b64char ((a.toNat * 65536 + b.toNat * 256 + c.toNat) / 262144))
      (List.mem_append_left _ List.mem_cons_self)
    exact b64char_ne_pad hlt (by simpa using hpad)

theorem plainSecret_tokenUrlsafe (entropy : Entropy) : PlainSecret (tokenUrlsafe entropy) :=
  fun _ => isSpace_of_mem_urlSafe

theorem tokenUrlsafe_ne_nil (entropy : Entropy) : tokenUrlsafe entropy ≠ [] :=
  urlSafe_ne_nil (by rw [entropy.2]; decide)

end Tokens

section Runs

variable {path label : Str} {entropy : Entropy} {f f' : CredentialsFile}

theorem run_ensureDrainToken : (ensureDrainToken path label entropy).run CredentialsFile.handle f =
    Prog.run CredentialsFile.handle (match findCredentialSecret path label f.contents with
      | .error e => raise e
      | .ok (some existing) => refuseEmptySecret existing label path
      | .ok none => do
        appendCredentialAtomic path label (tokenUrlsafe entropy)
        pure (tokenUrlsafe entropy)) f := by
  obtain ⟨text, mode⟩ := f
  cases text <;> rfl

theorem run_found {secret : Str}
    (h : findCredentialSecret path label f.contents = .ok (some secret)) :
    (ensureDrainToken path label entropy).run CredentialsFile.handle f =
      (if secret = [] then .error (.emptySecret label path) else .ok secret, f) := by
  rw [run_ensureDrainToken, h]
  simp only [refuseEmptySecret, List.isEmpty_iff]
  split_ifs <;> rfl

theorem trace_found {secret : Str}
    (h : findCredentialSecret path label f.contents = .ok (some secret)) :
    ∀ x ∈ (ensureDrainToken path label entropy).trace CredentialsFile.handle f,
      x.1.writes = false := by
  have hend : ∀ x ∈ (refuseEmptySecret secret label path).trace CredentialsFile.handle f,
      x.1.writes = false := by
    rw [refuseEmptySecret]
    split_ifs <;> exact fun x hx => absurd hx List.not_mem_nil
  obtain ⟨text, mode⟩ := f
  cases text with
  | none =>
    rw [ensureDrainToken]
    refine List.forall_mem_cons.mpr ⟨rfl, ?_⟩
    show ∀ x ∈ Prog.trace _ (match findCredentialSecret path label [] with
      | .error e => raise e
      | .ok (some existing) => refuseEmptySecret existing label path
      | .ok none => _) _, _
    rw [show findCredentialSecret path label [] = .ok (some secret) from h]
    exact hend
  | some text =>
    rw [ensureDrainToken]
    refine List.forall_mem_cons.mpr ⟨rfl, List.forall_mem_cons.mpr ⟨rfl, ?_⟩⟩
    show ∀ x ∈ Prog.trace _ (match findCredentialSecret path label (universalNewlines text) with
      | .error e => raise e
      | .ok (some existing) => refuseEmptySecret existing label path
      | .ok none => _) _, _
    rw [show findCredentialSecret path label (universalNewlines text) = .ok (some secret) from h]
    exact hend

def CredentialsFile.minted (f : CredentialsFile) (label : Str) (entropy : Entropy) :
    CredentialsFile where
  text := some (f.text.getD [] ++ secretLine label (tokenUrlsafe entropy))
  mode := 0o600

variable (entropy) in
theorem run_minted (h : findCredentialSecret path label f.contents = .ok none) :
    (ensureDrainToken path label entropy).run CredentialsFile.handle f =
      (.ok (tokenUrlsafe entropy), f.minted label entropy) := by
  rw [run_ensureDrainToken, h]
  simp only [appendCredentialAtomic]
  split_ifs <;> rfl

theorem universalNewlines_append_line {s t : Str} (hreturn : '\r' ∉ t)
    (hhead : ∀ c, t.head? = some c → c ≠ '\n') :
    universalNewlines (s ++ t) = universalNewlines s ++ t := by
  induction s using universalNewlines.induct with
  | case1 => exact universalNewlines_of_not_mem hreturn
  | case2 rest ih =>
    rw [List.cons_append, List.cons_append, universalNewlines_crlf, ih, universalNewlines_crlf]
    rfl
  | case3 c rest hnot ih =>
    rw [List.cons_append, universalNewlines_cons, ih, universalNewlines_cons hnot]
    · rfl
    · intro rest' hc hrest
      cases rest with
      | nil => exact hhead '\n' (by rw [← List.nil_append t, hrest]; rfl) rfl
      | cons d rest =>
        rw [List.cons_append, List.cons.injEq] at hrest
        exact hnot rest hc (by rw [hrest.1])

theorem LineLabel.plain (h : LineLabel label) : PlainLabel label where
  colon := h.colon
  carriageReturn hmem := absurd (h.noBreak _ hmem) (by decide)
  newline hmem := absurd (h.noBreak _ hmem) (by decide)
  head := h.head

/-- The line that is appended, without its newline. -/
def tokenLine (label : Str) (entropy : Entropy) : Str := label ++ ':' :: tokenUrlsafe entropy

theorem noBreak_tokenLine (h : LineLabel label) :
    ∀ c ∈ tokenLine label entropy, isLineBreak c = false := by
  intro c hc
  rcases List.mem_append.mp hc with hc | hc
  · exact h.noBreak c hc
  · rcases List.mem_cons.mp hc with rfl | hc
    · decide
    · exact isLineBreak_of_noSpace (plainSecret_tokenUrlsafe entropy c hc)

theorem contents_minted (h : LineLabel label) :
    (f.minted label entropy).contents = f.contents ++ (tokenLine label entropy ++ ['\n']) := by
  have hbreak : ∀ c ∈ tokenLine label entropy, isLineBreak c = false := noBreak_tokenLine h
  refine universalNewlines_append_line ?_ fun c hc => ?_
  · intro hmem
    rcases List.mem_append.mp hmem with hmem | hmem
    · exact absurd (hbreak _ hmem) (by decide)
    · exact absurd hmem (by decide)
  · rintro rfl
    have hmem : '\n' ∈ tokenLine label entropy := by
      rw [secretLine, List.head?_append] at hc
      have hne : label ++ ':' :: tokenUrlsafe entropy ≠ [] := by simp
      rw [List.head?_eq_some_head hne] at hc
      exact Option.some.inj hc ▸ List.head_mem hne
    exact absurd (hbreak _ hmem) (by decide)

theorem entries_append (lines lines' : List Str) :
    entries (lines ++ lines') = entries lines ++ entries lines' := List.filterMap_append

theorem finishedLines_contents_return : '\r' ∉ finishedLines f.contents := fun h =>
  Submission.noReturn_universal _ ((List.rdropWhile_prefix _ _).subset h)

theorem entries_contents : entries (splitlines f.contents) =
    entries (splitlines (finishedLines f.contents)) ++ entries [lastLine f.contents] := by
  conv_lhs => rw [← finishedLines_append_lastLine f.contents]
  rw [splitlines_append (fun _ => isLineBreak_of_finished) finishedLines_contents_return,
    entries_append]
  congr 1
  by_cases hne : lastLine f.contents = []
  · rw [hne]
    rfl
  · rw [splitlines_single hne noBreak_lastLine]

theorem splitlines_minted (h : LineLabel label) : splitlines (f.minted label entropy).contents =
    splitlines (finishedLines f.contents) ++ [lastLine f.contents ++ tokenLine label entropy] := by
  have hbreak : ∀ c ∈ lastLine f.contents ++ tokenLine label entropy, isLineBreak c = false :=
    List.forall_mem_append.mpr ⟨noBreak_lastLine, noBreak_tokenLine h⟩
  rw [contents_minted h]
  conv_lhs => rw [← finishedLines_append_lastLine f.contents]
  rw [List.append_assoc, splitlines_append (fun _ => isLineBreak_of_finished)
    finishedLines_contents_return, ← List.append_assoc, splitlines_append_newline hbreak]
  rfl

theorem entries_blank {l : Str} (h : LineLabel label) (hblank : ∀ c ∈ l, isSpace c = true) :
    entries [l ++ tokenLine label entropy] = [(label, tokenUrlsafe entropy)] := by
  have hstrip : strip (l ++ tokenLine label entropy) = tokenLine label entropy := by
    rw [strip, lstrip_append_of_forall hblank]
    exact strip_line h.plain (plainSecret_tokenUrlsafe entropy)
  rw [entries, List.filterMap_cons, hstrip, tokenLine, splitColon_line h.colon]
  rfl

theorem entries_joined {l : Str} (h : ':' ∈ l) (x : Str) :
    ∃ found secret secret', entries [l] = [(found, secret)] ∧
      entries [l ++ x] = [(found, secret')] := by
  have hlstrip : lstrip (l ++ x) = lstrip l ++ x := lstrip_append_of_exists ⟨':', h, by decide⟩
  have hcolon : ':' ∈ lstrip l := by
    rw [← List.takeWhile_append_dropWhile (p := isSpace) (l := l)] at h
    refine (List.mem_append.mp h).resolve_left fun hspace => ?_
    exact absurd (List.mem_takeWhile_imp hspace) (by decide)
  obtain ⟨u, v, hsplit, hu⟩ := List.eq_append_cons_of_mem hcolon
  refine ⟨u, rstrip v, rstrip (v ++ x), ?_, ?_⟩
  · rw [entries, List.filterMap_cons, strip, hsplit, rstrip_past (by decide), splitColon_line hu]
    rfl
  · rw [entries, List.filterMap_cons, strip, hlstrip, hsplit, List.append_assoc, List.cons_append,
      rstrip_past (by decide), splitColon_line hu]
    rfl

theorem mem_splitlines_contents {line : Str} (h : line ∈ splitlines (finishedLines f.contents)) :
    line ∈ splitlines f.contents := by
  rw [← finishedLines_append_lastLine f.contents,
    splitlines_append (fun _ => isLineBreak_of_finished) finishedLines_contents_return]
  exact List.mem_append_left _ h

theorem lastLine_mem_splitlines (h : lastLine f.contents ≠ []) :
    lastLine f.contents ∈ splitlines f.contents := by
  have hlines : splitlines (finishedLines f.contents ++ lastLine f.contents) = _ :=
    splitlines_append (fun _ => isLineBreak_of_finished) finishedLines_contents_return _
  rw [finishedLines_append_lastLine, splitlines_single h noBreak_lastLine] at hlines
  exact hlines ▸ List.mem_append_right _ List.mem_cons_self

variable (entropy) in
theorem recorded_minted (h : LineLabel label) (hrecorded : Recorded f.contents) :
    Recorded (f.minted label entropy).contents := by
  intro line hline hne
  rw [splitlines_minted h] at hline
  rcases List.mem_append.mp hline with hline | hline
  · exact hrecorded line (mem_splitlines_contents hline) hne
  · rw [List.mem_singleton.mp hline, tokenLine]
    simp

theorem lookup_swallowed (h : LineLabel label) (hcolon : ':' ∈ lastLine f.contents)
    (hnone : (entries (splitlines f.contents)).lookup label = none) :
    (entries (splitlines (f.minted label entropy).contents)).lookup label = none := by
  obtain ⟨found, secret, secret', hold, hnew⟩ := entries_joined hcolon (tokenLine label entropy)
  rw [entries_contents, hold, List.lookup_append, Option.or_eq_none_iff] at hnone
  rw [splitlines_minted h, entries_append, hnew, List.lookup_append, hnone.1, Option.none_or]
  have hne := hnone.2
  rw [List.lookup_cons] at hne ⊢
  split at hne
  · cases hne
  · rfl

theorem lookup_minted (h : LineLabel label) (hblank : ∀ c ∈ lastLine f.contents, isSpace c = true)
    (other : Str) : (entries (splitlines (f.minted label entropy).contents)).lookup other =
      ((entries (splitlines f.contents)).lookup other).or
        (if other = label then some (tokenUrlsafe entropy) else none) := by
  have hlast : entries [lastLine f.contents] = [] := by
    have hstrip : strip (lastLine f.contents) = [] := by
      rw [strip, lstrip, List.dropWhile_eq_nil_iff.mpr hblank]
      rfl
    rw [entries, List.filterMap_cons, hstrip]
    rfl
  rw [splitlines_minted h, entries_append, entries_blank h hblank, entries_contents, hlast,
    List.append_nil, List.lookup_append, List.lookup_cons]
  congr 1
  split_ifs with hother
  · rw [hother, beq_self_eq_true]
  · rw [beq_false_of_ne hother]
    rfl

theorem mem_of_findInLines {lines : List Str} {secret : Str} {n : Nat}
    (h : findInLines path label n lines = .ok (some secret)) : (label, secret) ∈ entries lines := by
  induction lines generalizing n with
  | nil => cases h
  | cons raw rest ih =>
    rw [findInLines] at h
    rw [entries, List.filterMap_cons]
    split_ifs at h with hblank
    · rw [List.isEmpty_iff.mp hblank, splitColon_nil]
      exact ih h
    · cases hsplit : splitColon (strip raw) with
      | none =>
        rw [hsplit] at h
        cases h
      | some entry =>
        obtain ⟨found, other⟩ := entry
        rw [hsplit] at h
        simp only at h
        split_ifs at h with hfound
        · obtain rfl := Option.some.inj (Except.ok.inj h)
          exact hfound ▸ List.mem_cons_self
        · exact List.mem_cons_of_mem _ (ih h)

/-- Minting a token keeps the credentials of every other label, and the token, exactly where there
is a line for it. -/
theorem keepsCredentials_iff (hrecorded : Recorded f.contents) :
    KeepsCredentials path label entropy f ↔ Keepable path label f := by
  have hfind : findCredentialSecret path label f.contents = _ := find_eq hrecorded
  cases hlookup : (entries (splitlines f.contents)).lookup label with
  | some secret =>
    rw [hlookup] at hfind
    refine iff_of_true (fun token f' hrun => ?_) (Or.inl ⟨secret, hfind⟩)
    rw [run_found hfind] at hrun
    split_ifs at hrun with hempty
    · cases hrun
    · obtain ⟨htoken, rfl⟩ := Prod.mk.inj hrun
      obtain rfl := Except.ok.inj htoken
      exact ⟨hfind, fun _ _ => rfl, fun _ =>
        ⟨by rw [run_found hfind, if_neg hempty], trace_found hfind⟩⟩
  | none =>
    rw [hlookup] at hfind
    have hrun := run_minted entropy hfind
    constructor
    · intro hkeeps
      have hfound := (hkeeps _ _ hrun).1
      have hlabel : LineLabel label := lineLabel_of_mem (mem_of_findInLines hfound)
      refine Or.inr ⟨hlabel, ?_⟩
      by_contra hblank
      push Not at hblank
      obtain ⟨c, hc, hspace⟩ := hblank
      have hmem := lastLine_mem_splitlines (List.ne_nil_of_mem hc)
      have hstrip : c ∈ strip (lastLine f.contents) :=
        (isSpace_or_mem_strip hc).resolve_left hspace
      have hcolon := hrecorded _ hmem (List.ne_nil_of_mem hstrip)
      rw [find_eq (recorded_minted entropy hlabel hrecorded),
        lookup_swallowed hlabel hcolon hlookup] at hfound
      cases hfound
    · rintro (⟨secret, hfound⟩ | ⟨hlabel, hblank⟩)
      · rw [hfind] at hfound
        cases hfound
      · intro token f' hrun'
        rw [hrun] at hrun'
        obtain ⟨htoken, rfl⟩ := Prod.mk.inj hrun'
        obtain rfl := Except.ok.inj htoken
        have hnew := recorded_minted entropy hlabel hrecorded
        have hfound : findCredentialSecret path label (f.minted label entropy).contents =
            .ok (some (tokenUrlsafe entropy)) := by
          rw [find_eq hnew, lookup_minted hlabel hblank, hlookup, if_pos rfl]
          rfl
        refine ⟨hfound, fun other hother => ?_, fun entropy' => ⟨?_, trace_found hfound⟩⟩
        · rw [find_eq hnew, find_eq hrecorded, lookup_minted hlabel hblank, if_neg hother,
            Option.or_none]
        · rw [run_found hfound, if_neg (tokenUrlsafe_ne_nil entropy)]

/-- A file of one finished line, and the same file without its newline. -/
def finishedFile : CredentialsFile := ⟨some "blog:secret\n".toList, 0o600⟩

def unfinishedFile : CredentialsFile := ⟨some "blog:secret".toList, 0o600⟩

def zeroEntropy : Entropy := ⟨List.replicate 32 0, by decide⟩

theorem keepsCredentials_iff_finished :
    KeepsCredentials [] "shim-drain-token".toList zeroEntropy finishedFile ↔
      Keepable [] "shim-drain-token".toList finishedFile := by
  refine keepsCredentials_iff ?_
  unfold Recorded
  decide

/-- The last secret of a file without a final newline takes the label and the token in. -/
theorem unfinished_not_kept : Recorded unfinishedFile.contents ∧
    ¬ KeepsCredentials [] "shim-drain-token".toList zeroEntropy unfinishedFile := by
  refine ⟨by unfold Recorded; decide, fun hkeeps => ?_⟩
  have hrun : (ensureDrainToken [] "shim-drain-token".toList zeroEntropy).run
      CredentialsFile.handle unfinishedFile = _ := run_minted _ (by decide)
  have hblog := (hkeeps _ _ hrun).2.1 "blog".toList (by decide)
  exact absurd hblog (by decide)

end Runs

end ShimEnvironment
end SharedInfra.Mail
