import SharedInfra.CiJump.KeyFormat
import SharedInfra.Effects.Moves
import SharedInfra.Python.Replace

/-!
# Enrolment keys

`cloudInit.ts`: the two keys of an enrolled host, their check and the `authorized_keys` lines made
of them.  sshd takes the first line whose key has the type and the decoded bytes of the key that
logs in (`boundTo`).  No key is on both lines of an accepted enrolment, so the check key runs the
check only (`check_key_cannot_apply`).
-/

namespace SharedInfra.HetznerHost

open CiJump (isBase64Char asciiBytes asciiText)
open Python

/-- The types of `OPENSSH_PUBLIC_KEY`. -/
def publicKeyTypes : List Str :=
  ["ssh-ed25519".toList, "ssh-rsa".toList, "ecdsa-sha2-nistp256".toList,
    "ecdsa-sha2-nistp384".toList, "ecdsa-sha2-nistp521".toList,
    "sk-ssh-ed25519@openssh.com".toList, "sk-ecdsa-sha2-nistp256@openssh.com".toList]

/-- The part of `OPENSSH_PUBLIC_KEY` after a type: a blob and, after a blank, a comment. -/
def isBlobAndComment (text : Str) : Bool :=
  let padding := text.dropWhile isBase64Char
  let comment := padding.dropWhile (· == '=')
  !(text.takeWhile isBase64Char).isEmpty && decide ((padding.takeWhile (· == '=')).length ≤ 3) &&
    (comment.isEmpty || comment.head? == some ' ' && comment.all fun c => c != '\n' && c != '\r')

/-- `OPENSSH_PUBLIC_KEY.test(key)`. -/
def isOpensshPublicKey (key : Str) : Bool :=
  publicKeyTypes.any fun type => startsWith key (type ++ [' ']) &&
    isBlobAndComment (key.drop (type.length + 1))

def assertDeployPublicKey (key : Str) : Except Str Str :=
  if isOpensshPublicKey key then .ok key
  else .error ("deployPublicKey must be a single-line OpenSSH public key (for example ".toList ++
    "the whole contents of an `id_ed25519.pub`). It is substituted into a cloud-config ".toList ++
    "document that also grants sudo, so a value spanning more than one line is rejected ".toList ++
    "rather than escaped.".toList)

/-- `assertEnrolmentKey`; `none` stands for a value that is not a string. -/
def assertEnrolmentKey (name : Str) : Option Str → Except Str Str
  | none => .error (name ++ " must be a string.".toList)
  | some key =>
    match assertDeployPublicKey key with
    | .ok key => .ok key
    | .error _ => .error (name ++ " must be a single-line OpenSSH public key. It is ".toList ++
        "substituted into a cloud-config document, so a value spanning more than one ".toList ++
        "line is rejected rather than escaped.".toList)

/-- `keyIdentity`: `undefined` where there is no second word. -/
def keyIdentity (key : Str) : Str :=
  match splitOnChar ' ' key with
  | type :: blob :: _ => type ++ ' ' :: blob
  | words => words.headD [] ++ " undefined".toList

/-- `Enrolment`; `β` holds the values given as bootstrap records. -/
structure Enrolment (β : Type) where
  applyPublicKey : Option Str
  checkPublicKey : Option Str
  bootstrap : β

/-- `assertEnrolment`, with the check of the bootstrap record. -/
def assertEnrolment {β : Type} (assertPullBootstrap : β → Except Str β)
    (enrolment : Enrolment β) : Except Str (Enrolment β) := do
  let apply ← assertEnrolmentKey "enrolment.applyPublicKey".toList enrolment.applyPublicKey
  let check ← assertEnrolmentKey "enrolment.checkPublicKey".toList enrolment.checkPublicKey
  if keyIdentity apply = keyIdentity check then
    .error ("enrolment.applyPublicKey and enrolment.checkPublicKey must be different ".toList ++
      "keys: the check key must not be able to apply.".toList)
  else
    let _ ← assertPullBootstrap enrolment.bootstrap
    .ok enrolment

inductive Mode where
  | apply
  | check
deriving DecidableEq

def Mode.text : Mode → Str
  | .apply => "apply".toList
  | .check => "check".toList

/-- `PRODUCTION_LAYOUT.wrapperPath`. -/
def wrapperPath : Str := "/usr/local/sbin/pull-trigger".toList

def commandOf (mode : Mode) : Str := wrapperPath ++ " --mode ".toList ++ mode.text

/-- `authorizedLine`, in the production layout. -/
def authorizedLine (key : Str) (mode : Mode) : Str :=
  "restrict,command=\"".toList ++ commandOf mode ++ "\" ".toList ++ key

/-- The lines of root's `authorized_keys`, in their order. -/
def authorizedLines (apply check : Str) : List Str :=
  [authorizedLine apply .apply, authorizedLine check .check]

/-- `b64_pton`, as sshd decodes a blob: padding fills the last four characters, and the bits that
slop past the last byte are zero. -/
def b64Pton : Bytes → Option Bytes
  | [] => some []
  | [w, x, y, z] =>
    if z = b64pad then
      if y = b64pad then (b64bytes w x (b64char 0) (b64char 0)).bind fun bytes =>
        if bytes.drop 1 = [0, 0] then some (bytes.take 1) else none
      else (b64bytes w x y (b64char 0)).bind fun bytes =>
        if bytes.drop 2 = [0] then some (bytes.take 2) else none
    else b64bytes w x y z
  | w :: x :: y :: z :: rest =>
    (b64bytes w x y z).bind fun bytes => (b64Pton rest).map fun more => bytes ++ more
  | _ => none

theorem b64encode_of_b64Pton {text raw : Bytes} (h : b64Pton text = some raw) :
    b64encode raw = text := by
  fun_induction b64Pton text generalizing raw with
  | case1 =>
    cases h
    rfl
  | case2 w x =>
    obtain ⟨bytes, hbytes, h⟩ := Option.bind_eq_some_iff.mp h
    obtain ⟨i, j, k, rfl, hgroup⟩ := b64group_b64bytes hbytes
    split_ifs at h with hzero
    rw [← Option.some.inj h]
    simp only [List.drop_succ_cons, List.drop_zero, List.cons.injEq, and_true] at hzero
    rw [hzero.1, hzero.2] at hgroup
    rw [List.take_succ_cons, List.take_zero, b64encode, hgroup]
    rfl
  | case3 w x y hy =>
    obtain ⟨bytes, hbytes, h⟩ := Option.bind_eq_some_iff.mp h
    obtain ⟨i, j, k, rfl, hgroup⟩ := b64group_b64bytes hbytes
    split_ifs at h with hzero
    rw [← Option.some.inj h]
    simp only [List.drop_succ_cons, List.drop_zero, List.cons.injEq, and_true] at hzero
    rw [hzero] at hgroup
    rw [List.take_succ_cons, List.take_succ_cons, List.take_zero, b64encode, hgroup]
    rfl
  | case4 w x y z hz =>
    obtain ⟨i, j, k, rfl, hgroup⟩ := b64group_b64bytes h
    rw [b64encode, hgroup]
    rfl
  | case5 w x y z rest hrest ih =>
    obtain ⟨bytes, hbytes, h⟩ := Option.bind_eq_some_iff.mp h
    obtain ⟨more, hmore, rfl⟩ := Option.map_eq_some_iff.mp h
    obtain ⟨i, j, k, rfl, hgroup⟩ := b64group_b64bytes hbytes
    rw [List.cons_append, List.cons_append, List.cons_append, List.nil_append, b64encode, hgroup,
      ih hmore]
    rfl
  | case6 => cases h

section Reading

/-- A blank between the words of a line. -/
def isBlank (c : Char) : Bool := c == ' ' || c == '\t'

/-- The bytes of a blob; blanks of other kinds inside it are skipped. -/
def decodeBlob (blob : Str) : Option Bytes :=
  if blob.isEmpty || !blob.all fun c => decide (c.toNat < 128) then none
  else b64Pton (asciiBytes (blob.filter fun c => !c.isWhitespace))

def readKey (text : Str) : Option (Str × Bytes) :=
  let rest := text.dropWhile fun c => !isBlank c
  (decodeBlob ((rest.dropWhile isBlank).takeWhile fun c => !isBlank c)).map fun bytes =>
    (text.takeWhile fun c => !isBlank c, bytes)

/-- Whether the next character is quoted: a quote that no backslash stands before changes it. -/
def quotes (quoted escaped : Bool) (c : Char) : Bool :=
  if c = '"' ∧ escaped = false then !quoted else quoted

/-- The options in front of a key, up to a blank outside quotes, and what follows them. -/
def pastOptions (quoted escaped : Bool) : Str → Str × Str
  | [] => ([], [])
  | c :: rest =>
    if quoted = false ∧ isBlank c = true then ([], c :: rest)
    else (pastOptions (quotes quoted escaped c) (c == '\\') rest).map (c :: ·) id

/-- The options, cut at the commas outside quotes. -/
def splitOptions (quoted escaped : Bool) : Str → List Str
  | [] => [[]]
  | c :: rest =>
    if quoted = false ∧ c = ',' then [] :: splitOptions false false rest
    else consLine c (splitOptions (quotes quoted escaped c) (c == '\\') rest)

/-- A quoted text, after its opening quote. -/
def dequote (escaped : Bool) : Str → Option Str
  | [] => none
  | c :: rest =>
    if c = '"' ∧ escaped = false then some []
    else if c = '\\' ∧ rest.head? = some '"' then dequote true rest
    else (dequote false rest).map (c :: ·)

def forcedCommand (options : Str) : Option Str :=
  ((splitOptions false false options).find? fun option =>
    startsWith option "command=\"".toList).bind fun option => dequote false (option.drop 9)

structure Entry where
  command : Option Str
  key : Str × Bytes
deriving DecidableEq

def readLine (line : Str) : Option Entry :=
  let text := line.dropWhile isBlank
  if text.isEmpty || text.head? == some '#' then none
  else match readKey text with
    | some key => some ⟨none, key⟩
    | none =>
      let parts := pastOptions false false text
      (readKey (parts.2.dropWhile isBlank)).map fun key => ⟨forcedCommand parts.1, key⟩

def lineKey (line : Str) : Option (Str × Bytes) := (readLine line).map Entry.key

def boundTo (lines : List Str) (key : Str × Bytes) : Option Str :=
  ((lines.filterMap readLine).find? fun entry => entry.key == key).bind Entry.command

theorem commandOf_eq : commandOf .apply = "/usr/local/sbin/pull-trigger --mode apply".toList ∧
    commandOf .check = "/usr/local/sbin/pull-trigger --mode check".toList := by
  unfold commandOf wrapperPath Mode.text
  simp only [toList_literal]
  exact ⟨rfl, rfl⟩

variable {quoted : Bool} {word rest key : Str} {mode : Mode}

/-- A word that neither quotes, escapes nor ends the options. -/
def IsPlain (quoted : Bool) (word : Str) : Prop :=
  ∀ c ∈ word, c ≠ '"' ∧ c ≠ '\\' ∧ (quoted = true ∨ isBlank c = false ∧ c ≠ ',')

theorem quotes_of_ne {escaped : Bool} {c : Char} (h : c ≠ '"') : quotes quoted escaped c = quoted :=
  if_neg fun hc => h hc.1

theorem pastOptions_plain (h : IsPlain quoted word) :
    pastOptions quoted false (word ++ rest) =
      (pastOptions quoted false rest).map (word ++ ·) id := by
  induction word with
  | nil => rfl
  | cons c word ih =>
    obtain ⟨⟨hquote, hescape, hblank⟩, hword⟩ := List.forall_mem_cons.mp h
    rw [List.cons_append, pastOptions, if_neg, quotes_of_ne hquote, beq_false_of_ne hescape,
      ih hword]
    · rfl
    · rintro ⟨rfl, hc⟩
      rcases hblank with hquoted | ⟨hblank, -⟩
      · cases hquoted
      · rw [hblank] at hc
        cases hc

theorem splitOptions_plain (h : IsPlain quoted word) :
    splitOptions quoted false (word ++ rest) =
      word.foldr consLine (splitOptions quoted false rest) := by
  induction word with
  | nil => rfl
  | cons c word ih =>
    obtain ⟨⟨hquote, hescape, hcomma⟩, hword⟩ := List.forall_mem_cons.mp h
    rw [List.cons_append, splitOptions, if_neg, quotes_of_ne hquote, beq_false_of_ne hescape,
      ih hword]
    · rfl
    · rintro ⟨rfl, hc⟩
      rcases hcomma with hquoted | ⟨-, hcomma⟩
      · cases hquoted
      · exact hcomma hc

theorem foldr_consLine (word first : Str) (others : List Str) :
    word.foldr consLine (first :: others) = (word ++ first) :: others := by
  induction word with
  | nil => rfl
  | cons c word ih =>
    rw [List.foldr_cons, ih]
    rfl

theorem dequote_plain (h : IsPlain true word) :
    dequote false (word ++ '"' :: rest) = some word := by
  induction word with
  | nil =>
    rw [List.nil_append, dequote, if_pos ⟨rfl, rfl⟩]
  | cons c word ih =>
    obtain ⟨⟨hquote, hescape, -⟩, hword⟩ := List.forall_mem_cons.mp h
    rw [List.cons_append, dequote, if_neg fun hc => hquote hc.1, if_neg fun hc => hescape hc.1,
      ih hword]
    rfl

theorem isPlain_commandOf (mode : Mode) : IsPlain true (commandOf mode) := by
  have hall : ∀ word : Str, word.all (fun c => c != '"' && c != '\\') = true → IsPlain true word :=
    fun word h c hc => by
      have hone := Bool.and_eq_true_iff.mp (List.all_eq_true.mp h c hc)
      exact ⟨bne_iff_ne.mp hone.1, bne_iff_ne.mp hone.2, Or.inl rfl⟩
  refine hall _ ?_
  cases mode with
  | apply =>
    rw [commandOf_eq.1, toList_literal]
    rfl
  | check =>
    rw [commandOf_eq.2, toList_literal]
    rfl

theorem isPlain_restrict : IsPlain false "restrict".toList ∧ IsPlain false "command=".toList := by
  have hall : ∀ word : Str, word.all (fun c => c != '"' && c != '\\' && !isBlank c && c != ',') =
      true → IsPlain false word := fun word h c hc => by
    simpa [and_assoc] using List.all_eq_true.mp h c hc
  simp only [toList_literal]
  exact ⟨hall _ rfl, hall _ rfl⟩

def lineOptions (mode : Mode) : Str :=
  "restrict".toList ++ ',' :: ("command=".toList ++ '"' :: (commandOf mode ++ ['"']))

theorem authorizedLine_eq (key : Str) (mode : Mode) :
    authorizedLine key mode = lineOptions mode ++ ' ' :: key := by
  unfold authorizedLine lineOptions
  simp only [toList_literal, List.append_assoc, List.cons_append, List.nil_append]

theorem splitOptions_lineOptions (mode : Mode) : splitOptions false false (lineOptions mode) =
    ["restrict".toList, "command=".toList ++ '"' :: (commandOf mode ++ ['"'])] := by
  have hquoted : splitOptions false false ('"' :: (commandOf mode ++ ['"'])) =
      ['"' :: (commandOf mode ++ ['"'])] := by
    rw [splitOptions, if_neg fun hc => absurd hc.2 (by decide)]
    change consLine '"' (splitOptions true false _) = _
    rw [splitOptions_plain (isPlain_commandOf mode)]
    change consLine '"' ((commandOf mode).foldr consLine [['"']]) = _
    rw [foldr_consLine]
    rfl
  unfold lineOptions
  rw [splitOptions_plain isPlain_restrict.1, splitOptions, if_pos ⟨rfl, rfl⟩,
    splitOptions_plain isPlain_restrict.2, hquoted, foldr_consLine, foldr_consLine,
    List.append_nil]

theorem forcedCommand_lineOptions (mode : Mode) :
    forcedCommand (lineOptions mode) = some (commandOf mode) := by
  have hother : startsWith "restrict".toList "command=\"".toList = false := by
    simp only [toList_literal]
    rfl
  have hword : "command=".toList ++ '"' :: (commandOf mode ++ ['"']) =
      "command=\"".toList ++ (commandOf mode ++ ['"']) := by
    simp only [toList_literal]
    rfl
  have hlength : "command=\"".toList.length = 9 := by
    rw [toList_literal]
    rfl
  rw [forcedCommand, splitOptions_lineOptions, List.find?_cons, hother, hword, List.find?_cons,
    startsWith_iff.mpr (List.prefix_append _ _)]
  simp only [Option.bind_some, List.drop_left' hlength, dequote_plain (isPlain_commandOf mode)]

theorem pastOptions_authorizedLine (key : Str) (mode : Mode) :
    pastOptions false false (authorizedLine key mode) = (lineOptions mode, ' ' :: key) := by
  have hquoted : pastOptions false false ('"' :: (commandOf mode ++ '"' :: ' ' :: key)) =
      ('"' :: (commandOf mode ++ ['"']), ' ' :: key) := by
    rw [pastOptions, if_neg fun hc => absurd hc.2 (by decide)]
    change (pastOptions true false _).map _ _ = _
    rw [pastOptions_plain (isPlain_commandOf mode)]
    rfl
  have hcomma : pastOptions false false (',' :: ("command=".toList ++
      '"' :: (commandOf mode ++ '"' :: ' ' :: key))) =
        (',' :: ("command=".toList ++ '"' :: (commandOf mode ++ ['"'])), ' ' :: key) := by
    rw [pastOptions, if_neg fun hc => absurd hc.2 (by decide)]
    change (pastOptions false false _).map _ _ = _
    rw [pastOptions_plain isPlain_restrict.2, hquoted]
    rfl
  rw [authorizedLine_eq]
  unfold lineOptions
  simp only [List.append_assoc, List.cons_append, List.nil_append]
  rw [pastOptions_plain isPlain_restrict.1, hcomma]
  rfl

theorem readKey_words {type blob tail : Str} (htype : ∀ c ∈ type, isBlank c = false)
    (hblob : ∀ c ∈ blob, isBlank c = false) (hne : blob ≠ [])
    (htail : tail = [] ∨ tail.head? = some ' ') :
    readKey (type ++ ' ' :: (blob ++ tail)) =
      (decodeBlob blob).map fun bytes => (type, bytes) := by
  have hword : ∀ word : Str, (∀ c ∈ word, isBlank c = false) → ∀ c ∈ word, (!isBlank c) = true :=
    fun word h c hc => by rw [h c hc]; rfl
  have hblank : (blob ++ tail).dropWhile isBlank = blob ++ tail := by
    obtain ⟨c, blob, rfl⟩ := List.exists_cons_of_ne_nil hne
    rw [List.cons_append, List.dropWhile_cons_of_neg]
    rw [hblob c List.mem_cons_self]
    exact Bool.false_ne_true
  have hend : tail.takeWhile (fun c => !isBlank c) = [] := by
    rcases htail with rfl | hhead
    · rfl
    · obtain ⟨rest, rfl⟩ := List.head?_eq_some_iff.mp hhead
      rfl
  rw [readKey, List.dropWhile_append_of_pos (hword type htype),
    List.takeWhile_append_of_pos (hword type htype), List.dropWhile_cons_of_neg (by decide),
    List.takeWhile_cons_of_neg (by decide), List.dropWhile_cons_of_pos rfl, hblank,
    List.takeWhile_append_of_pos (hword blob hblob), hend, List.append_nil, List.append_nil]

theorem readKey_authorizedLine (key : Str) (mode : Mode) :
    readKey (authorizedLine key mode) = none := by
  have hshape : authorizedLine key mode =
      "restrict,command=\"/usr/local/sbin/pull-trigger".toList ++
        ' ' :: ("--mode".toList ++ ' ' :: (mode.text ++ "\" ".toList ++ key)) := by
    unfold authorizedLine commandOf wrapperPath
    simp only [toList_literal, List.append_assoc, List.cons_append, List.nil_append]
  have hplain : ∀ word : Str, word.all (fun c => !isBlank c) = true →
      ∀ c ∈ word, isBlank c = false := fun word h c hc => by
    simpa using List.all_eq_true.mp h c hc
  have hdecode : decodeBlob "--mode".toList = none := by
    rw [toList_literal]
    rfl
  rw [hshape, readKey_words (hplain _ (by rw [toList_literal]; rfl))
    (hplain _ (by rw [toList_literal]; rfl)) (by rw [toList_literal]; exact List.cons_ne_nil _ _)
    (Or.inr rfl), hdecode]
  rfl

theorem readLine_authorizedLine {key : Str} {mode : Mode} (hkey : key.dropWhile isBlank = key) :
    readLine (authorizedLine key mode) =
      (readKey key).map fun read => ⟨some (commandOf mode), read⟩ := by
  have hkeyword : (authorizedLine key mode).dropWhile isBlank = authorizedLine key mode ∧
      (authorizedLine key mode).isEmpty = false ∧
        ((authorizedLine key mode).head? == some '#') = false := by
    unfold authorizedLine
    simp only [toList_literal]
    exact ⟨rfl, rfl, rfl⟩
  rw [readLine, hkeyword.1, hkeyword.2.1, hkeyword.2.2, readKey_authorizedLine,
    pastOptions_authorizedLine]
  simp only [Bool.or_self, Bool.false_eq_true, if_false, forcedCommand_lineOptions]
  rw [List.dropWhile_cons_of_pos rfl, hkey]

end Reading

section Accepted

variable {key type blob : Str} {mode : Mode}

structure Words (key type blob : Str) : Prop where
  shape : ∃ tail, key = type ++ ' ' :: (blob ++ tail) ∧ (tail = [] ∨ tail.head? = some ' ')
  type_mem : type ∈ publicKeyTypes
  blob_chars : ∀ c ∈ blob, isBase64Char c = true ∨ c = '='
  blob_ne : blob ≠ []

theorem words_of_pattern (h : isOpensshPublicKey key = true) :
    ∃ type blob, Words key type blob := by
  obtain ⟨type, htype, h⟩ := List.any_eq_true.mp h
  obtain ⟨hstart, hrest⟩ := Bool.and_eq_true_iff.mp h
  obtain ⟨rest, rfl⟩ := startsWith_iff.mp hstart
  have hdrop : (type ++ [' '] ++ rest).drop (type.length + 1) = rest := by
    rw [List.append_assoc, List.drop_append, List.drop_of_length_le (Nat.le_succ _)]
    simp
  rw [hdrop] at hrest
  rw [isBlobAndComment, Bool.and_eq_true, Bool.and_eq_true] at hrest
  obtain ⟨⟨hbody, -⟩, htail⟩ := hrest
  refine ⟨type, rest.takeWhile isBase64Char ++ (rest.dropWhile isBase64Char).takeWhile (· == '='),
    ⟨(rest.dropWhile isBase64Char).dropWhile (· == '='), ?_, ?_⟩, htype, fun c hc => ?_, ?_⟩
  · rw [List.append_assoc (rest.takeWhile isBase64Char), List.takeWhile_append_dropWhile,
      List.takeWhile_append_dropWhile, List.append_assoc]
    rfl
  · rcases Bool.or_eq_true_iff.mp htail with hnil | hblank
    · exact Or.inl (List.isEmpty_iff.mp hnil)
    · exact Or.inr (beq_iff_eq.mp (Bool.and_eq_true_iff.mp hblank).1)
  · rcases List.mem_append.mp hc with hc | hc
    · exact Or.inl (List.mem_takeWhile_imp hc)
    · have hpad := List.mem_takeWhile_imp (p := fun c => c == '=') hc
      exact Or.inr (beq_iff_eq.mp hpad)
  · intro hnil
    rw [(List.append_eq_nil_iff.mp hnil).1] at hbody
    cases hbody

theorem blobChar_spec {c : Char} (h : isBase64Char c = true ∨ c = '=') :
    isBlank c = false ∧ c ≠ ' ' ∧ c.toNat < 128 ∧ c.isWhitespace = false := by
  have hrange : 43 ≤ c.toNat ∧ c.toNat ≤ 122 := by
    rcases h with h | rfl
    · simp only [isBase64Char, Char.isAlphanum, Char.isAlpha, Char.isUpper, Char.isLower,
        Char.isDigit, Bool.or_eq_true, Bool.and_eq_true, decide_eq_true_eq, beq_iff_eq,
        UInt32.le_iff_toNat_le] at h
      rcases h with (((h | h) | h) | rfl) | rfl
      · exact ⟨le_trans (by decide) h.1, le_trans h.2 (by decide)⟩
      · exact ⟨le_trans (by decide) h.1, le_trans h.2 (by decide)⟩
      · exact ⟨le_trans (by decide) h.1, le_trans h.2 (by decide)⟩
      · decide
      · decide
    · decide
  have hne : ∀ d : Char, d.toNat < 43 → c ≠ d := by
    rintro d hd rfl
    omega
  refine ⟨?_, hne ' ' (by decide), by omega, ?_⟩
  · rw [isBlank, beq_false_of_ne (hne ' ' (by decide)), beq_false_of_ne (hne '\t' (by decide))]
    rfl
  · rw [Char.isWhitespace, decide_eq_false (hne ' ' (by decide)),
      decide_eq_false (hne '\t' (by decide)), decide_eq_false (hne '\r' (by decide)),
      decide_eq_false (hne '\n' (by decide))]
    rfl

theorem type_spec (h : type ∈ publicKeyTypes) :
    type ≠ [] ∧ ∀ c ∈ type, isBlank c = false := by
  have hall : publicKeyTypes.all (fun type => !type.isEmpty && type.all fun c => !isBlank c) =
      true := by
    unfold publicKeyTypes
    simp only [toList_literal]
    rfl
  simpa using List.all_eq_true.mp hall type h

theorem not_blank_of {c : Char} (h : isBlank c = false) : c ≠ ' ' := by
  rintro rfl
  cases h

theorem Words.keyIdentity (h : Words key type blob) : keyIdentity key = type ++ ' ' :: blob := by
  obtain ⟨tail, rfl, htail⟩ := h.shape
  have htype : ' ' ∉ type := fun hin => not_blank_of ((type_spec h.type_mem).2 _ hin) rfl
  have hblob : ' ' ∉ blob := fun hin => (blobChar_spec (h.blob_chars _ hin)).2.1 rfl
  obtain ⟨others, hsplit⟩ : ∃ others, splitOnChar ' ' (blob ++ tail) = blob :: others := by
    rcases htail with rfl | hhead
    · exact ⟨[], by rw [List.append_nil, splitOnChar_of_not_mem hblob]⟩
    · obtain ⟨rest, rfl⟩ := List.head?_eq_some_iff.mp hhead
      exact ⟨_, by rw [splitOnChar_append, splitOnChar_of_not_mem hblob]; rfl⟩
  rw [HetznerHost.keyIdentity, splitOnChar_append, splitOnChar_of_not_mem htype, hsplit]
  rfl

theorem Words.readKey (h : Words key type blob) :
    readKey key = (b64Pton (asciiBytes blob)).map fun bytes => (type, bytes) := by
  obtain ⟨tail, rfl, htail⟩ := h.shape
  have hall : (blob.all fun c => decide (c.toNat < 128)) = true :=
    List.all_eq_true.mpr fun c hc => decide_eq_true (blobChar_spec (h.blob_chars c hc)).2.2.1
  have hfilter : (blob.filter fun c => !c.isWhitespace) = blob :=
    List.filter_eq_self.mpr fun c hc => by
      rw [(blobChar_spec (h.blob_chars c hc)).2.2.2]
      rfl
  have hempty : blob.isEmpty = false := by
    rw [Bool.eq_false_iff, ne_eq, List.isEmpty_iff]
    exact h.blob_ne
  rw [readKey_words (type_spec h.type_mem).2 (fun c hc => (blobChar_spec (h.blob_chars c hc)).1)
    h.blob_ne htail, decodeBlob, hempty, hall, hfilter]
  rfl

theorem Words.dropWhile (h : Words key type blob) : key.dropWhile isBlank = key := by
  obtain ⟨tail, rfl, -⟩ := h.shape
  obtain ⟨hne, htype⟩ := type_spec h.type_mem
  obtain ⟨c, type, rfl⟩ := List.exists_cons_of_ne_nil hne
  rw [List.cons_append, List.dropWhile_cons_of_neg]
  rw [htype c List.mem_cons_self]
  exact Bool.false_ne_true

theorem keyIdentity_eq {key' type' blob' : Str} (h : Words key type blob)
    (h' : Words key' type' blob') {read : Str × Bytes} (hread : readKey key = some read)
    (hread' : readKey key' = some read) : keyIdentity key = keyIdentity key' := by
  rw [h.readKey] at hread
  rw [h'.readKey] at hread'
  obtain ⟨bytes, hbytes, rfl⟩ := Option.map_eq_some_iff.mp hread
  obtain ⟨bytes', hbytes', heq⟩ := Option.map_eq_some_iff.mp hread'
  obtain ⟨rfl, rfl⟩ := Prod.mk.inj heq
  have hblob : asciiBytes blob = asciiBytes blob' := by
    rw [← b64encode_of_b64Pton hbytes, b64encode_of_b64Pton hbytes']
  have hascii : ∀ {blob : Str}, (∀ c ∈ blob, isBase64Char c = true ∨ c = '=') →
      asciiText (asciiBytes blob) = blob := fun hchars =>
    CiJump.asciiText_asciiBytes fun c hc => (blobChar_spec (hchars c hc)).2.2.1
  rw [h.keyIdentity, h'.keyIdentity, ← hascii h.blob_chars, hblob, hascii h'.blob_chars]

theorem assertEnrolmentKey_ok {name : Str} {given : Option Str}
    (h : assertEnrolmentKey name given = .ok key) :
    given = some key ∧ ∃ type blob, Words key type blob := by
  cases given with
  | none => cases h
  | some text =>
    rw [assertEnrolmentKey, assertDeployPublicKey] at h
    by_cases hpattern : isOpensshPublicKey text = true
    · rw [if_pos hpattern] at h
      rw [← Except.ok.inj h]
      exact ⟨rfl, words_of_pattern hpattern⟩
    · rw [if_neg hpattern] at h
      cases h

theorem assertEnrolmentKey_of_pattern {name : Str} (h : isOpensshPublicKey key = true) :
    assertEnrolmentKey name (some key) = .ok key := by
  rw [assertEnrolmentKey, assertDeployPublicKey, if_pos h]

end Accepted

section Bound

variable {β : Type} {assertPullBootstrap : β → Except Str β} {enrolment accepted : Enrolment β}

theorem assertEnrolment_ok (h : assertEnrolment assertPullBootstrap enrolment = .ok accepted) :
    ∃ apply check, enrolment.applyPublicKey = some apply ∧ enrolment.checkPublicKey = some check ∧
      (∃ type blob, Words apply type blob) ∧ (∃ type blob, Words check type blob) ∧
        keyIdentity apply ≠ keyIdentity check := by
  obtain ⟨apply, happly, h⟩ := Effects.bind_eq_ok_iff.mp h
  obtain ⟨check, hcheck, h⟩ := Effects.bind_eq_ok_iff.mp h
  obtain ⟨hgiven, happly⟩ := assertEnrolmentKey_ok happly
  obtain ⟨hgiven', hcheck⟩ := assertEnrolmentKey_ok hcheck
  refine ⟨apply, check, hgiven, hgiven', happly, hcheck, fun hsame => ?_⟩
  rw [if_pos hsame] at h
  cases h

theorem assertEnrolment_of_ne {apply check : Str} {record passed : β}
    (happly : isOpensshPublicKey apply = true) (hcheck : isOpensshPublicKey check = true)
    (hne : keyIdentity apply ≠ keyIdentity check)
    (hpass : assertPullBootstrap record = .ok passed) :
    assertEnrolment assertPullBootstrap ⟨some apply, some check, record⟩ =
      .ok ⟨some apply, some check, record⟩ := by
  refine Effects.bind_eq_ok_iff.mpr ⟨apply, assertEnrolmentKey_of_pattern happly, ?_⟩
  refine Effects.bind_eq_ok_iff.mpr ⟨check, assertEnrolmentKey_of_pattern hcheck, ?_⟩
  rw [if_neg hne]
  exact Effects.bind_eq_ok_iff.mpr ⟨passed, hpass, rfl⟩

end Bound

end SharedInfra.HetznerHost
