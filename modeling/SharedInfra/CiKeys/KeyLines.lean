import SharedInfra.CiKeys.PublicKey
import SharedInfra.Python.IpRoundTrip
import SharedInfra.Python.Utf8
import SharedInfra.Python.Words

/-!
# The two key lines of a CI account

`ci_key_line.py verify`: what was read back of `authorized_keys` is accepted exactly where it is the
two lines of two keys, byte for byte, and neither key stands in the file of the others
(`verify_keys`).  The decoded keys are compared by their texts, which have no padding, so that a key
has one text.
-/

namespace SharedInfra.CiKeys

open Python Sequences Effects
open CiJump (asciiBytes asciiText isBase64Char IsBlob wireFormat)

section Verify

/-- `KEY_TYPE`. -/
def ed25519 : Str := "ssh-ed25519"

def program : Str := "/usr/local/sbin/pull-trigger"

/-- `OPTIONS`. -/
def restrict : Str := "restrict"

def maxReadbackBytes : Nat := 4096

def maxNotKeysBytes : Nat := 65536

def validIpv4 (text : Str) : Bool :=
  (ipv4Value text).any fun value => decide (ipv4Text value = text)

def optionsFor (mode address : Str) : Str :=
  restrict ++ ",from=\"".toList ++ address ++ "\",command=\"sudo ".toList ++ program ++
    " --mode ".toList ++ mode ++ ['"']

/-- `line_for`; the key's comment is dropped. -/
def lineFor (mode : Str) (key : KeyCheck) (address : Str) : Str :=
  optionsFor mode address ++ ' ' :: (key.keyType ++ ' ' :: key.body)

def modes : List Str := ["check", "apply"]

variable (sha256 : Bytes → Bytes)

def buildLine (mode : Str) (pub : Option Bytes) (address : Str) : Except Str Str := do
  refuseIf (mode ∉ modes) "bad_mode"
  refuseIf (¬ validIpv4 address) "bad_from"
  let key := checkFile sha256 pub ed25519
  refuseIf (¬ key.ok) key.reason
  pure (lineFor mode key address)

/-- `read_limited`, of the bytes of a file or of none at all. -/
def readLimited (content : Option Bytes) (limit : Nat) : Option Bytes :=
  (content.map (·.take (limit + 1))).filter fun data => decide (data.length ≤ limit)

/-- A clause `name="..."` at the front of a text. -/
def clauseAt (name s : Str) : Option Str :=
  let rest := s.drop (name.length + 2)
  if startsWith s (name ++ ['=', '"']) ∧ '"' ∈ rest then some (rest.takeWhile (· != '"')) else none

/-- The clauses of a text, each behind the end of the one before. -/
def clauses (name : Str) : Nat → Str → List Str
  | _, [] => []
  | skip + 1, _ :: rest => clauses name skip rest
  | 0, c :: rest =>
    match clauseAt name (c :: rest) with
    | some value => value :: clauses name (name.length + value.length + 2) rest
    | none => clauses name 0 rest

/-- `line.rsplit(" ", 2)`: all but the last two words, and these. -/
def rsplitTwo (line : Str) : List Str :=
  let words := splitOnChar ' ' line
  if words.length ≤ 2 then words
  else joinWith [' '] (words.take (words.length - 2)) :: words.drop (words.length - 2)

def whyLinesDiffer (got want : Str) : Str :=
  match rsplitTwo got, rsplitTwo want with
  | [gotOptions, gotType, gotBody], [wantOptions, wantType, wantBody] =>
    let sources := clauses "from" 0 gotOptions
    if ¬ startsWith gotOptions restrict then "restrict_missing"
    else if (clauses "command" 0 gotOptions).head? ≠ (clauses "command" 0 wantOptions).head? then
      "command_mismatch"
    else if sources = [] then "from_missing"
    else if 1 < sources.length then "several_from"
    else if sources ≠ clauses "from" 0 wantOptions then "from_mismatch"
    else if gotOptions ≠ wantOptions then "options_differ"
    else if [gotType, gotBody] ≠ [wantType, wantBody] then "key_mismatch"
    else "not_identical"
  | _, _ => "not_identical"

def firstDifference : List Str → List Str → Str
  | got :: gots, want :: wants =>
    if got ≠ want then whyLinesDiffer got want else firstDifference gots wants
  | _, _ => "not_identical"

def whyBytesDiffer (data : Bytes) (wanted : List Str) : Str :=
  let got := splitlines (utf8DecodeReplace data)
  if got.length ≠ wanted.length then "line_count"
  else if got = wanted.reverse then "order_swapped"
  else firstDifference got wanted

def refuseHeld (notKeys : Option (Option Bytes)) (bodies : List Str) : Except Str Unit :=
  match notKeys with
  | none => .ok ()
  | some file => do
    let held ← (readLimited file maxNotKeysBytes).elim (.error "not_keys_unreadable") .ok
    refuseIf (∃ body ∈ bodies, body ∈ splitWords (utf8DecodeReplace held)) "key_in_not_keys"

/-- The bytes that are accepted. -/
def exactLines (check apply : KeyCheck) (address : Str) : Bytes :=
  asciiBytes (joinWith ['\n'] [lineFor "check" check address, lineFor "apply" apply address] ++
    ['\n'])

variable (readback checkPub applyPub : Option Bytes) (address : Str)
  (notKeys : Option (Option Bytes))

/-- What `verify_lines` goes through until it returns a reason. -/
def verify : Except Str Unit := do
  refuseIf (¬ validIpv4 address) "bad_from"
  let check := checkFile sha256 checkPub ed25519
  refuseIf (¬ check.ok) ("check_pub_".toList ++ check.reason)
  let apply := checkFile sha256 applyPub ed25519
  refuseIf (¬ apply.ok) ("apply_pub_".toList ++ apply.reason)
  refuseIf (check.body = apply.body) "same_key_both_modes"
  refuseHeld notKeys [check.body, apply.body]
  let data ← (readLimited readback maxReadbackBytes).elim (.error "readback_unreadable") .ok
  refuseIf (data ≠ exactLines check apply address)
    (whyBytesDiffer data [lineFor "check" check address, lineFor "apply" apply address])

def verifyLines : Str :=
  match verify sha256 readback checkPub applyPub address notKeys with
  | .error reason => reason
  | .ok () => []

end Verify

section Meaning

/-- Four numbers up to 255 without zeros in front, with dots between them. -/
def PlainQuad (text : Str) : Prop :=
  ∃ a b c d, (a < 256 ∧ b < 256 ∧ c < 256 ∧ d < 256) ∧
    text = joinWith ['.'] [decimal a, decimal b, decimal c, decimal d]

/-- The file of other keys, where there is one, can be read whole and has no word of these. -/
def HoldsNone (notKeys : Option (Option Bytes)) (bodies : List Str) : Prop :=
  ∀ file ∈ notKeys, ∃ held, file = some held ∧ held.length ≤ maxNotKeysBytes ∧
    ∀ body ∈ bodies, body ∉ splitWords (utf8DecodeReplace held)

/-- A stretch of a file between blanks and line ends, where `sshd` looks for the base64 of a key. -/
def IsField (held field : Bytes) : Prop :=
  ∃ before after, held = before ++ (field ++ after) ∧
    (∀ b ∈ before.getLast?, b ∈ [0x20, 0x09, 0x0a]) ∧ ∀ b ∈ after.head?, b ∈ [0x20, 0x09, 0x0a]

def KeyCheck.blob (key : KeyCheck) : Option Bytes := b64decode (asciiBytes key.body)

variable (sha256 : Bytes → Bytes) (readback checkPub applyPub : Option Bytes) (address : Str)
  (notKeys : Option (Option Bytes))

/-- What was read back is the two lines of two keys that are nobody else's. -/
structure Verified : Prop where
  plain : PlainQuad address
  check : (checkFile sha256 checkPub ed25519).ok = true
  apply : (checkFile sha256 applyPub ed25519).ok = true
  differ : (checkFile sha256 checkPub ed25519).blob ≠ (checkFile sha256 applyPub ed25519).blob
  others : HoldsNone notKeys
    [(checkFile sha256 checkPub ed25519).body, (checkFile sha256 applyPub ed25519).body]
  bytes : readback = some (exactLines (checkFile sha256 checkPub ed25519)
    (checkFile sha256 applyPub ed25519) address)

/-- The reasons of `verify_lines`. -/
def verifyReasons : List Str :=
  ["bad_from".toList] ++ keyReasons.map ("check_pub_".toList ++ ·) ++
    keyReasons.map ("apply_pub_".toList ++ ·) ++
    ["same_key_both_modes".toList, "not_keys_unreadable".toList, "key_in_not_keys".toList,
      "readback_unreadable".toList, "line_count".toList, "order_swapped".toList,
      "restrict_missing".toList, "command_mismatch".toList, "from_missing".toList,
      "several_from".toList, "from_mismatch".toList, "options_differ".toList,
      "key_mismatch".toList, "not_identical".toList]

end Meaning

section Addresses

variable {text : Str}

theorem decimal_length {n : Nat} (h : n < 256) : (decimal n).length ≤ 3 := by
  revert n
  decide +kernel

theorem ipv4Text_eq (value : Nat) : ipv4Text value = joinWith ['.'] [decimal (value / 2 ^ 24),
    decimal (value / 2 ^ 16 % 256), decimal (value / 2 ^ 8 % 256), decimal (value % 256)] := rfl

theorem plainQuad_iff : PlainQuad text ↔ ∃ value < 2 ^ 32, text = ipv4Text value := by
  constructor
  · rintro ⟨a, b, c, d, ⟨ha, hb, hc, hd⟩, rfl⟩
    refine ⟨a * 2 ^ 24 + b * 2 ^ 16 + c * 2 ^ 8 + d, by omega, ?_⟩
    have hfirst : (a * 2 ^ 24 + b * 2 ^ 16 + c * 2 ^ 8 + d) / 2 ^ 24 = a := by omega
    have hsecond : (a * 2 ^ 24 + b * 2 ^ 16 + c * 2 ^ 8 + d) / 2 ^ 16 % 256 = b := by omega
    have hthird : (a * 2 ^ 24 + b * 2 ^ 16 + c * 2 ^ 8 + d) / 2 ^ 8 % 256 = c := by omega
    have hfourth : (a * 2 ^ 24 + b * 2 ^ 16 + c * 2 ^ 8 + d) % 256 = d := by omega
    rw [ipv4Text_eq, hfirst, hsecond, hthird, hfourth]
  · rintro ⟨value, hvalue, rfl⟩
    exact ⟨_, _, _, _, ⟨by omega, by omega, by omega, by omega⟩, ipv4Text_eq value⟩

theorem validIpv4_iff : validIpv4 text = true ↔ PlainQuad text := by
  rw [plainQuad_iff, validIpv4]
  constructor
  · intro h
    obtain ⟨value, hvalue, htext⟩ := (Option.any_eq_true _ _).mp h
    exact ⟨value, ipv4Value_lt hvalue, (of_decide_eq_true htext).symm⟩
  · rintro ⟨value, hvalue, rfl⟩
    rw [ipv4Value_ipv4Text hvalue]
    exact decide_eq_true rfl

theorem length_of_plainQuad (h : PlainQuad text) : text.length ≤ 15 := by
  obtain ⟨a, b, c, d, ⟨ha, hb, hc, hd⟩, rfl⟩ := h
  have hla := decimal_length ha
  have hlb := decimal_length hb
  have hlc := decimal_length hc
  have hld := decimal_length hd
  simp only [joinWith, List.length_append, List.length_cons, List.length_nil]
  omega

end Addresses

section Words

variable {held body : Bytes} {b : UInt8} {rest : Bytes}

theorem utf8DecodeReplace_cons (h : b.toNat < 0x80) :
    utf8DecodeReplace (b :: rest) = Char.ofNat b.toNat :: utf8DecodeReplace rest := by
  have hhead : utf8Head (b :: rest) = some (Char.ofNat b.toNat, rest) := if_pos h
  rw [utf8DecodeReplace, utf8ReplaceFrom, hhead]
  simp only [Nat.sub_self]
  rfl

theorem utf8DecodeReplace_ascii {text : Str} (h : ∀ c ∈ text, c.toNat < 128) :
    utf8DecodeReplace (asciiBytes text ++ rest) = text ++ utf8DecodeReplace rest := by
  induction text with
  | nil => rfl
  | cons c text ih =>
    obtain ⟨hc, htext⟩ := List.forall_mem_cons.mp h
    have hbyte : (UInt8.ofNat c.toNat).toNat = c.toNat := by
      rw [UInt8.toNat_ofNat']
      omega
    have hcons : asciiBytes (c :: text) ++ rest =
        UInt8.ofNat c.toNat :: (asciiBytes text ++ rest) := rfl
    rw [hcons, utf8DecodeReplace_cons (by omega), hbyte, Char.ofNat_toNat, ih htext]
    rfl

theorem isSpace_of_end (h : b ∈ [0x20, 0x09, 0x0a]) :
    b.toNat < 0x80 ∧ isSpace (Char.ofNat b.toNat) = true := by
  simp only [List.mem_cons, List.not_mem_nil, or_false] at h
  rcases h with rfl | rfl | rfl <;> decide

theorem mem_splitWords_of_isField {text : Str} (hascii : ∀ c ∈ text, c.toNat < 128)
    (hword : IsWord text) (h : IsField held (asciiBytes text)) :
    text ∈ splitWords (utf8DecodeReplace held) := by
  obtain ⟨before, after, rfl, hbefore, hafter⟩ := h
  have hbehind : text ∈ splitWords (utf8DecodeReplace (asciiBytes text ++ after)) := by
    rw [utf8DecodeReplace_ascii hascii]
    cases after with
    | nil =>
      have hnil : utf8DecodeReplace [] = [] := rfl
      rw [hnil, List.append_nil, splitWords_word hword]
      exact List.mem_cons_self
    | cons b after =>
      obtain ⟨hb, hspace⟩ := isSpace_of_end (hafter b rfl)
      rw [utf8DecodeReplace_cons hb, splitWords_append_cons hspace, splitWords_word hword]
      exact List.mem_cons_self
  rcases List.eq_nil_or_concat before with rfl | ⟨front, b, rfl⟩
  · exact hbehind
  · rw [List.concat_eq_append] at hbefore ⊢
    obtain ⟨hb, hspace⟩ := isSpace_of_end (hbefore b (by simp))
    rw [List.append_assoc, List.singleton_append, utf8DecodeReplace_append hb,
      utf8DecodeReplace_cons hb, splitWords_append_cons hspace]
    exact List.mem_append_right _ hbehind

end Words

section Results

variable {sha256 : Bytes → Bytes} {readback checkPub applyPub content : Option Bytes}
  {address : Str} {notKeys : Option (Option Bytes)} {bodies : List Str}

theorem of_ok (h : (checkFile sha256 content ed25519).ok = true) :
    (checkFile sha256 content ed25519).keyType = ed25519 ∧
      (checkFile sha256 content ed25519).body.length = 68 ∧
      (∀ c ∈ (checkFile sha256 content ed25519).body, isBase64Char c = true) ∧
      ∃ raw, (checkFile sha256 content ed25519).blob = some raw := by
  obtain ⟨data, -, hread⟩ := checkFile_ok_iff.mp h
  obtain ⟨htype, hlength, hchars⟩ := body_of_readKey hread
  obtain ⟨-, -, -, -, -, -, -, -, ⟨blob, hblob, -⟩, -⟩ := of_readKey hread
  exact ⟨htype, hlength, hchars, blob, hblob⟩

theorem blob_eq_iff (hcheck : (checkFile sha256 checkPub ed25519).ok = true)
    (happly : (checkFile sha256 applyPub ed25519).ok = true) :
    (checkFile sha256 checkPub ed25519).blob = (checkFile sha256 applyPub ed25519).blob ↔
      (checkFile sha256 checkPub ed25519).body = (checkFile sha256 applyPub ed25519).body := by
  obtain ⟨-, -, hchars, raw, hraw⟩ := of_ok hcheck
  obtain ⟨-, -, hchars', raw', hraw'⟩ := of_ok happly
  constructor
  · intro heq
    have hbytes := eq_of_decode (pad_not_mem hchars) hraw (heq.symm.trans hraw)
    rw [← CiJump.asciiText_asciiBytes fun c hc => ascii_of_isBase64Char (hchars c hc), hbytes,
      CiJump.asciiText_asciiBytes fun c hc => ascii_of_isBase64Char (hchars' c hc)]
  · intro heq
    rw [KeyCheck.blob, KeyCheck.blob, heq]

theorem readLimited_eq_some_iff {limit : Nat} {data : Bytes} :
    readLimited content limit = some data ↔ content = some data ∧ data.length ≤ limit := by
  rw [readLimited, Option.filter_eq_some_iff, Option.map_eq_some_iff, decide_eq_true_eq]
  constructor
  · rintro ⟨⟨whole, rfl, rfl⟩, hlength⟩
    rw [List.length_take] at hlength
    have hshort : whole.length ≤ limit := by omega
    rw [List.take_of_length_le (by omega)]
    exact ⟨rfl, hshort⟩
  · rintro ⟨rfl, hlength⟩
    exact ⟨⟨data, rfl, List.take_of_length_le (by omega)⟩, hlength⟩

theorem refuseHeld_eq_ok_iff {u : Unit} :
    refuseHeld notKeys bodies = .ok u ↔ HoldsNone notKeys bodies := by
  cases notKeys with
  | none => exact iff_of_true rfl fun file hfile => (by cases hfile)
  | some file =>
    rw [refuseHeld]
    simp only [bind_eq_ok_iff, orElim_eq_ok_iff, readLimited_eq_some_iff, refuseIf_eq_ok_iff]
    constructor
    · rintro ⟨held, ⟨rfl, hlength⟩, hnone⟩ file' hfile'
      cases hfile'
      exact ⟨held, rfl, hlength, fun body hbody hword => hnone ⟨body, hbody, hword⟩⟩
    · intro h
      obtain ⟨held, rfl, hlength, hnone⟩ := h file rfl
      exact ⟨held, ⟨rfl, hlength⟩, fun ⟨body, hbody, hword⟩ => hnone body hbody hword⟩

theorem lineFor_length (mode : Str) {key : KeyCheck} (hmode : mode.length = 5)
    (htype : key.keyType = ed25519) (hbody : key.body.length = 68) (haddress : PlainQuad address) :
    (lineFor mode key address).length ≤ 200 := by
  have hshort := length_of_plainQuad haddress
  have hrestrict : restrict.length = 8 := rfl
  have hprogram : program.length = 28 := rfl
  have hfrom : (",from=\"".toList).length = 7 := rfl
  have hcommand : ("\",command=\"sudo ".toList).length = 16 := rfl
  have hflag : (" --mode ".toList).length = 8 := rfl
  have hed : ed25519.length = 11 := rfl
  simp only [lineFor, optionsFor, List.length_append, List.length_cons, List.length_nil, htype,
    hbody, hmode, hrestrict, hprogram, hfrom, hcommand, hflag, hed]
  omega

theorem exactLines_length (haddress : PlainQuad address)
    (hcheck : (checkFile sha256 checkPub ed25519).ok = true)
    (happly : (checkFile sha256 applyPub ed25519).ok = true) :
    (exactLines (checkFile sha256 checkPub ed25519) (checkFile sha256 applyPub ed25519)
      address).length ≤ maxReadbackBytes := by
  obtain ⟨htype, hlength, -⟩ := of_ok hcheck
  obtain ⟨htype', hlength', -⟩ := of_ok happly
  have hfirst := lineFor_length "check" rfl htype hlength haddress
  have hsecond := lineFor_length "apply" rfl htype' hlength' haddress
  simp only [exactLines, asciiBytes, joinWith, List.length_map, List.length_append,
    List.length_cons, List.length_nil, maxReadbackBytes]
  omega

theorem verify_eq_ok_iff : verify sha256 readback checkPub applyPub address notKeys = .ok () ↔
    Verified sha256 readback checkPub applyPub address notKeys := by
  simp only [verify, bind_eq_ok_iff, refuseIf_eq_ok_iff, orElim_eq_ok_iff, refuseHeld_eq_ok_iff,
    readLimited_eq_some_iff, not_not, exists_const, ne_eq]
  constructor
  · rintro ⟨haddress, hcheck, happly, hdiffer, hothers, data, ⟨hread, -⟩, rfl⟩
    exact ⟨validIpv4_iff.mp haddress, hcheck, happly,
      fun heq => hdiffer ((blob_eq_iff hcheck happly).mp heq), hothers, hread⟩
  · rintro ⟨haddress, hcheck, happly, hdiffer, hothers, hbytes⟩
    exact ⟨validIpv4_iff.mpr haddress, hcheck, happly,
      fun heq => hdiffer ((blob_eq_iff hcheck happly).mpr heq), hothers, _,
      ⟨hbytes, exactLines_length haddress hcheck happly⟩, rfl⟩

theorem buildLine_eq_ok_iff {mode line : Str} : buildLine sha256 mode content address = .ok line ↔
    mode ∈ modes ∧ PlainQuad address ∧ (checkFile sha256 content ed25519).ok = true ∧
      line = lineFor mode (checkFile sha256 content ed25519) address := by
  simp only [buildLine, bind_eq_ok_iff, refuseIf_eq_ok_iff, not_not, exists_const, validIpv4_iff]
  refine and_congr_right fun _ => and_congr_right fun _ => and_congr_right fun _ => ?_
  exact ⟨fun h => (Except.ok.inj h).symm, fun h => by rw [h]; rfl⟩

theorem Verified.built (h : Verified sha256 readback checkPub applyPub address notKeys) :
    ∃ check apply, buildLine sha256 "check" checkPub address = .ok check ∧
      buildLine sha256 "apply" applyPub address = .ok apply ∧
      readback = some (asciiBytes (joinWith ['\n'] [check, apply] ++ ['\n'])) :=
  ⟨_, _, buildLine_eq_ok_iff.mpr ⟨List.mem_cons_self, h.plain, h.check, rfl⟩,
    buildLine_eq_ok_iff.mpr
      ⟨List.mem_cons_of_mem _ List.mem_cons_self, h.plain, h.apply, rfl⟩, h.bytes⟩

theorem whyLinesDiffer_mem (got want : Str) : whyLinesDiffer got want ∈ verifyReasons := by
  have hreasons : ∀ reason ∈ ["not_identical".toList, "restrict_missing".toList,
      "command_mismatch".toList, "from_missing".toList, "several_from".toList,
      "from_mismatch".toList, "options_differ".toList, "key_mismatch".toList],
      reason ∈ verifyReasons := by
    decide
  unfold whyLinesDiffer
  split
  · simp only
    split_ifs <;> exact hreasons _ (by decide)
  · exact hreasons _ (by decide)

theorem firstDifference_mem (gots wants : List Str) :
    firstDifference gots wants ∈ verifyReasons := by
  have hnot : "not_identical".toList ∈ verifyReasons := by decide
  induction gots generalizing wants with
  | nil => exact hnot
  | cons got gots ih =>
    cases wants with
    | nil => exact hnot
    | cons want wants =>
      rw [firstDifference]
      split_ifs
      · exact whyLinesDiffer_mem got want
      · exact ih wants

theorem whyBytesDiffer_mem (data : Bytes) (wanted : List Str) :
    whyBytesDiffer data wanted ∈ verifyReasons := by
  unfold whyBytesDiffer
  simp only
  split_ifs
  · decide
  · decide
  · exact firstDifference_mem _ _

theorem refusesWith_check {lead : Str}
    (hlead : lead = "check_pub_".toList ∨ lead = "apply_pub_".toList) :
    RefusesWith verifyReasons (refuseIf (¬ (checkFile sha256 content ed25519).ok)
      (lead ++ (checkFile sha256 content ed25519).reason)) := by
  intro reason h
  by_cases hok : (checkFile sha256 content ed25519).ok = true
  · rw [refuseIf, if_neg (not_not.mpr hok)] at h
    cases h
  · rw [refuseIf, if_pos hok] at h
    cases h
    rcases checkFile_cases sha256 content ed25519 with ⟨data, hcontent, -, hread⟩ | hreason
    · exact absurd (checkFile_ok_iff.mpr ⟨data, hcontent, hread⟩) hok
    · rw [verifyReasons]
      rcases hlead with rfl | rfl
      · exact List.mem_append_left _ (List.mem_append_left _
          (List.mem_append_right _ (List.mem_map_of_mem hreason)))
      · exact List.mem_append_left _ (List.mem_append_right _ (List.mem_map_of_mem hreason))

theorem refusesWith_verify :
    RefusesWith verifyReasons (verify sha256 readback checkPub applyPub address notKeys) := by
  have hreasons : ∀ reason ∈ ["bad_from".toList, "same_key_both_modes".toList,
      "not_keys_unreadable".toList, "key_in_not_keys".toList, "readback_unreadable".toList],
      reason ∈ verifyReasons := by
    decide
  refine .bind (refusesWith_refuseIf (hreasons _ (by decide))) fun _ => ?_
  refine .bind (refusesWith_check (Or.inl rfl)) fun _ => ?_
  refine .bind (refusesWith_check (Or.inr rfl)) fun _ => ?_
  refine .bind (refusesWith_refuseIf (hreasons _ (by decide))) fun _ => ?_
  refine .bind ?_ fun _ => ?_
  · unfold refuseHeld
    cases notKeys with
    | none =>
      intro reason h
      cases h
    | some file =>
      exact .bind (refusesWith_elim (hreasons _ (by decide)) _) fun _ =>
        refusesWith_refuseIf (hreasons _ (by decide))
  · exact .bind (refusesWith_elim (hreasons _ (by decide)) _) fun _ =>
      refusesWith_refuseIf (whyBytesDiffer_mem _ _)

variable (sha256 readback checkPub applyPub address notKeys) in
theorem verifyLines_cases : verifyLines sha256 readback checkPub applyPub address notKeys = [] ∧
      verify sha256 readback checkPub applyPub address notKeys = .ok () ∨
    verifyLines sha256 readback checkPub applyPub address notKeys ∈ verifyReasons ∧
      verify sha256 readback checkPub applyPub address notKeys ≠ .ok () := by
  rw [verifyLines]
  cases hverify : verify sha256 readback checkPub applyPub address notKeys with
  | error reason =>
    refine Or.inr ⟨refusesWith_verify reason hverify, fun h => ?_⟩
    cases h
  | ok u => exact Or.inl ⟨rfl, rfl⟩

theorem isWord_of_body {text : Str} (hlength : text.length = 68)
    (h : ∀ c ∈ text, isBase64Char c = true) : IsWord text := by
  refine ⟨?_, fun c hc => ?_⟩
  · rintro rfl
    cases hlength
  · exact ascii_cases (p := fun c => isBase64Char c = true → isSpace c = false) (by decide)
      (ascii_of_isBase64Char (h c hc)) (h c hc)

theorem field_ne_blob {held field : Bytes} (h : (checkFile sha256 content ed25519).ok = true)
    (hnone : (checkFile sha256 content ed25519).body ∉ splitWords (utf8DecodeReplace held))
    (hfield : IsField held field) :
    b64decode field ≠ (checkFile sha256 content ed25519).blob := by
  obtain ⟨-, hlength, hchars, raw, hraw⟩ := of_ok h
  intro heq
  obtain rfl := eq_of_decode (pad_not_mem hchars) hraw (heq.trans hraw)
  exact hnone (mem_splitWords_of_isField (fun c hc => ascii_of_isBase64Char (hchars c hc))
    (isWord_of_body hlength hchars) hfield)

/-- **Keys and key lines.**  An accepted file is one public key line; what was read back verifies
exactly where it is the two lines of two different accepted keys that are no words of the file of
other keys, so that no field of that file is decoded to one of them; and what is returned
otherwise is one of the reasons. -/
theorem verify_keys (sha256 : Bytes → Bytes) :
    (∀ data wantType, (checkText sha256 data wantType).ok = true →
      ∃ blob, OneKey data (checkText sha256 data wantType).keyType
        (checkText sha256 data wantType).body blob) ∧
    ∀ readback checkPub applyPub address notKeys,
      (verifyLines sha256 readback checkPub applyPub address notKeys = [] ↔
        Verified sha256 readback checkPub applyPub address notKeys) ∧
      (verifyLines sha256 readback checkPub applyPub address notKeys = [] →
        ∀ held field, notKeys = some (some held) → IsField held field →
          ∀ content ∈ [checkPub, applyPub],
            b64decode field ≠ (checkFile sha256 content ed25519).blob) ∧
      (verifyLines sha256 readback checkPub applyPub address notKeys ≠ [] →
        verifyLines sha256 readback checkPub applyPub address notKeys ∈ verifyReasons) := by
  have hnil : [] ∉ verifyReasons := by decide
  refine ⟨fun data wantType h => oneKey_of_readKey (checkText_ok_iff.mp h),
    fun readback checkPub applyPub address notKeys => ?_⟩
  have hcases := verifyLines_cases sha256 readback checkPub applyPub address notKeys
  have hiff : verifyLines sha256 readback checkPub applyPub address notKeys = [] ↔
      Verified sha256 readback checkPub applyPub address notKeys := by
    rw [← verify_eq_ok_iff]
    rcases hcases with ⟨hempty, hok⟩ | ⟨hreason, hnot⟩
    · exact iff_of_true hempty hok
    · exact iff_of_false (fun hempty => hnil (hempty ▸ hreason)) hnot
  refine ⟨hiff, fun hempty held field hheld hfield content hcontent => ?_, fun hne => ?_⟩
  · obtain ⟨-, hcheck, happly, -, hothers, -⟩ := hiff.mp hempty
    obtain ⟨held', heq, -, hnone⟩ := hothers _ hheld
    cases heq
    rcases List.mem_cons.mp hcontent with rfl | hcontent
    · exact field_ne_blob hcheck (hnone _ List.mem_cons_self) hfield
    · obtain rfl := List.mem_singleton.mp hcontent
      exact field_ne_blob happly
        (hnone _ (List.mem_cons_of_mem _ List.mem_cons_self)) hfield
  · rcases hcases with ⟨hempty, -⟩ | ⟨hreason, -⟩
    · exact absurd hempty hne
    · exact hreason

end Results

def checkBlob : Bytes := writeFields [asciiBytes ed25519, List.replicate 32 11]

def applyBlob : Bytes := writeFields [asciiBytes ed25519, List.replicate 32 12]

/-- A blob whose second field promises more bytes than there are. -/
def oddBlob : Bytes := writeFields [asciiBytes ed25519] ++ List.replicate 36 255

/-- SHA-256 of the three blobs. -/
def sampleSha256 (blob : Bytes) : Bytes :=
  if blob = checkBlob then
    [249, 153, 188, 201, 243, 153, 131, 214, 46, 229, 6, 219, 38, 124, 225, 78, 20, 179, 97, 141,
      142, 110, 70, 120, 171, 23, 49, 218, 237, 21, 212, 190]
  else if blob = applyBlob then
    [230, 212, 51, 71, 83, 150, 173, 102, 181, 182, 171, 97, 114, 247, 204, 162, 208, 103, 188, 82,
      146, 118, 191, 93, 111, 41, 217, 24, 29, 255, 170, 104]
  else if blob = oddBlob then
    [43, 213, 77, 29, 140, 127, 177, 85, 118, 88, 179, 89, 219, 120, 26, 64, 104, 145, 14, 79, 59,
      243, 121, 52, 251, 75, 229, 251, 67, 177, 69, 195]
  else []

def keyFile (blob : Bytes) (comment : Str) : Bytes :=
  asciiBytes (ed25519 ++ " ".toList) ++ b64encode blob ++ asciiBytes (' ' :: comment ++ ['\n'])

def sampleReadback : Bytes :=
  asciiBytes (optionsFor "check" "203.0.113.7" ++ ' ' :: ed25519 ++ " ".toList) ++
    b64encode checkBlob ++ asciiBytes ("\n".toList ++
      optionsFor "apply" "203.0.113.7" ++ ' ' :: ed25519 ++ " ".toList) ++
    b64encode applyBlob ++ asciiBytes "\n"

theorem checkText_sample :
    (checkText sampleSha256 (keyFile checkBlob "demo1-check") none).ok = true := by
  decide +kernel

theorem verifyLines_sample : verifyLines sampleSha256 (some sampleReadback)
    (some (keyFile checkBlob "demo1-check")) (some (keyFile applyBlob "demo1-apply"))
    "203.0.113.7" (some (some (keyFile oddBlob "other"))) = [] := by
  decide +kernel

/-- Two keys, their lines and a file of another key. -/
theorem verify_keys_sample :
    (∃ blob, OneKey (keyFile checkBlob "demo1-check")
      (checkText sampleSha256 (keyFile checkBlob "demo1-check") none).keyType
      (checkText sampleSha256 (keyFile checkBlob "demo1-check") none).body blob) ∧
    Verified sampleSha256 (some sampleReadback) (some (keyFile checkBlob "demo1-check"))
      (some (keyFile applyBlob "demo1-apply")) "203.0.113.7"
      (some (some (keyFile oddBlob "other"))) ∧
    b64decode (b64encode oddBlob) ≠
      (checkFile sampleSha256 (some (keyFile checkBlob "demo1-check")) ed25519).blob ∧
    verifyLines sampleSha256 none (some (keyFile checkBlob "demo1-check"))
      (some (keyFile applyBlob "demo1-apply")) "203.0.113.7" none ∈ verifyReasons := by
  refine ⟨(verify_keys sampleSha256).1 _ none checkText_sample,
    ((verify_keys sampleSha256).2 _ _ _ _ _).1.mp verifyLines_sample, ?_,
    ((verify_keys sampleSha256).2 _ _ _ _ _).2.2 (by decide +kernel)⟩
  refine ((verify_keys sampleSha256).2 _ _ _ _ _).2.1 verifyLines_sample
    (keyFile oddBlob "other") _ rfl ?_ _ List.mem_cons_self
  exact ⟨asciiBytes (ed25519 ++ " ".toList), asciiBytes (' ' :: "other".toList ++ ['\n']),
    List.append_assoc _ _ _, by decide +kernel, by decide +kernel⟩

/-- The fields behind the name are not read: a blob is accepted whose second field would have to go
on behind its end. -/
theorem unread_fields_are_accepted :
    (checkText sampleSha256 (keyFile oddBlob "odd") none).ok = true ∧
    (checkText sampleSha256 (keyFile oddBlob "odd") none).keyType = ed25519 ∧
    (checkText sampleSha256 (keyFile oddBlob "odd") none).blob = some oddBlob ∧
    ¬ IsBlob wireFormat ed25519 oddBlob := by
  refine ⟨by decide +kernel, by decide +kernel, by decide +kernel, fun h => ?_⟩
  obtain ⟨⟨kinds, fields, hformat, hraw, hsizes, -⟩, -⟩ := CiJump.isBlob_wireFormat_iff.mp h
  have hread := CiJump.readFields_blob hformat hraw hsizes
  have hnone : readFields oddBlob.length oddBlob = none := by decide +kernel
  rw [hnone] at hread
  cases hread

end SharedInfra.CiKeys
