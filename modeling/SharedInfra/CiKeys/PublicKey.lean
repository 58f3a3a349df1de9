import SharedInfra.CiJump.KeyFormat
import SharedInfra.Effects.Moves
import SharedInfra.Python.Replace

/-!
# A file that is one public key

`pubkey_only.py`: a file is accepted where it is one line that has the shape of a public key.  The
shape fixes the type, the length of the base64 text and a comment, and the blob has to begin with
the name of its type (`oneKey_of_readKey`); how the fields behind the name are divided is not looked
at.
-/

namespace SharedInfra.CiKeys

open Python Sequences Effects
open CiJump (asciiBytes asciiText isBase64Char IsTail IsBlob wireFormat)

section Check

def maxBytes : Nat := 2048

/-- An entry of `KEY_SHAPES`: so many characters of base64, or more, and so many `=`. -/
structure KeyShape where
  keyType : Str
  digits : Nat
  orMore : Bool
  leastPads : Nat
  mostPads : Nat

def keyShapes : List KeyShape :=
  [⟨"ssh-ed25519", 68, false, 0, 0⟩,
    ⟨"ecdsa-sha2-nistp256", 139, false, 1, 1⟩,
    ⟨"ecdsa-sha2-nistp384", 182, false, 2, 2⟩,
    ⟨"ecdsa-sha2-nistp521", 230, false, 2, 2⟩,
    ⟨"ssh-rsa", 200, true, 0, 2⟩,
    ⟨"sk-ssh-ed25519@openssh.com", 90, true, 0, 2⟩,
    ⟨"sk-ecdsa-sha2-nistp256@openssh.com", 160, true, 0, 2⟩]

def keyTypes : List Str := keyShapes.map KeyShape.keyType

/-- `( [ -~]*)?\Z`. -/
def isComment : Str → Bool
  | [] => true
  | c :: rest => c == ' ' && rest.all isPrintableAscii

def KeyShape.takes (shape : KeyShape) (count : Nat) : Prop :=
  if shape.orMore then shape.digits ≤ count else count = shape.digits

instance (shape : KeyShape) (count : Nat) : Decidable (shape.takes count) := by
  unfold KeyShape.takes
  infer_instance

/-- One alternative of `KEY_PATTERN`, to the end of the line. -/
def KeyShape.matches (shape : KeyShape) (line : Str) : Bool :=
  let behind := line.drop (shape.keyType.length + 1)
  let rest := behind.dropWhile isBase64Char
  let pads := (rest.takeWhile (· == '=')).length
  startsWith line (shape.keyType ++ [' ']) &&
    decide (shape.takes (behind.takeWhile isBase64Char).length) &&
    decide (shape.leastPads ≤ pads ∧ pads ≤ shape.mostPads) &&
    isComment (rest.dropWhile (· == '='))

/-- `KEY_PATTERN.match(line)`. -/
def keyPattern (line : Str) : Bool := keyShapes.any fun shape => shape.matches line

/-- `BLOB_START.match(word)`. -/
def blobStart (word : Str) : Bool :=
  startsWith word "AAAA" && decide (16 ≤ ((word.drop 4).takeWhile isBase64Char).length)

def privateMarkers : List Bytes :=
  [asciiBytes "-----BEGIN", asciiBytes "PRIVATE KEY", asciiBytes "openssh-key-v1"]

/-- The verdict on one file: a reason when refused, the key's parts when accepted. -/
structure KeyCheck where
  reason : Str
  keyType : Str
  body : Str
  fingerprint : Str
deriving DecidableEq

def KeyCheck.ok (key : KeyCheck) : Bool := key.reason.isEmpty

def refused (reason : Str) : KeyCheck := ⟨reason, [], [], []⟩

def blobNamesType (blob : Bytes) (keyType : Str) : Bool :=
  match blob with
  | a :: b :: c :: d :: rest => decide (rest.take (lengthValue a b c d) = asciiBytes keyType)
  | _ => false

/-- A refusal with this reason where something holds. -/
def refuseIf (p : Prop) [Decidable p] (reason : Str) : Except Str Unit :=
  if p then .error reason else .ok ()

/-- The text without the line break at its end. -/
def lineOf (text : Str) : Str := if text.getLast? = some '\n' then text.dropLast else text

def shapeReason (line : Str) : Str :=
  let words := splitOnChar ' ' line
  if words.headD [] ∉ keyTypes ∧ ∃ word ∈ words.tail, word ∈ keyTypes then "options_in_front"
  else "bad_shape"

variable (sha256 : Bytes → Bytes)

def fingerprintOf (blob : Bytes) : Str :=
  "SHA256:".toList ++ (asciiText (b64encode (sha256 blob))).rdropWhile (· == '=')

/-- What `check_text` accepts, or the reason of its refusal. -/
def readKey (data : Bytes) (wantType : Option Str) : Except Str KeyCheck := do
  refuseIf (maxBytes < data.length) "too_large"
  refuseIf (∃ marker ∈ privateMarkers, marker <:+: data) "private_key"
  refuseIf (∃ b ∈ data, 128 ≤ b.toNat) "not_text"
  let line := lineOf (asciiText data)
  refuseIf (strip line = []) "empty"
  refuseIf ('\n' ∈ line) "several_lines"
  refuseIf (¬ keyPattern line) (shapeReason line)
  let words := splitOnChar ' ' line
  let keyType := words.headD []
  let body := words.tail.headD []
  refuseIf (∃ word ∈ words.drop 2, word ∈ keyTypes ∨ blobStart word) "several_keys"
  let blob ← (b64decode (asciiBytes body)).elim (.error "bad_shape") .ok
  refuseIf (¬ blobNamesType blob keyType) "bad_shape"
  refuseIf (wantType.any fun want => decide (keyType ≠ want)) "wrong_type"
  pure ⟨[], keyType, body, fingerprintOf sha256 blob⟩

def checkText (data : Bytes) (wantType : Option Str) : KeyCheck :=
  match readKey sha256 data wantType with
  | .error reason => refused reason
  | .ok key => key

/-- `check_file`, of the bytes of the file or of none at all. -/
def checkFile (content : Option Bytes) (wantType : Option Str) : KeyCheck :=
  match content with
  | none => refused "unreadable"
  | some data => checkText sha256 (data.take (maxBytes + 1)) wantType

/-- The reasons of `check_file`. -/
def keyReasons : List Str :=
  ["too_large".toList, "private_key".toList, "not_text".toList, "empty".toList,
    "several_lines".toList, "options_in_front".toList, "bad_shape".toList, "several_keys".toList,
    "wrong_type".toList, "unreadable".toList]

end Check

def NamesType (keyType : Str) (blob : Bytes) : Prop :=
  ∃ rest, blob = lengthBytes keyType.length ++ asciiBytes keyType ++ rest

def FitsShape (keyType : Str) (blob : Bytes) : Prop :=
  ∃ shape ∈ keyShapes, shape.keyType = keyType ∧
    if shape.orMore then shape.digits * 3 / 4 ≤ blob.length
    else blob.length = shape.digits * 3 / 4

/-- A text is the base64 of a public key. -/
def IsKeyText (word : Str) : Prop :=
  ∃ keyType raw, IsBlob wireFormat keyType raw ∧ b64decode (asciiBytes word) = some raw

structure OneKey (data : Bytes) (keyType body : Str) (blob : Bytes) : Prop where
  oneLine : ∃ later, (∀ word ∈ later, word ∉ keyTypes ∧ ¬ IsKeyText word) ∧
    ∃ line, '\n' ∉ line ∧ splitOnChar ' ' line = keyType :: body :: later ∧
      (data = asciiBytes line ∨ data = asciiBytes (line ++ ['\n']))
  known : keyType ∈ keyTypes
  base64 : b64decode (asciiBytes body) = some blob
  names : NamesType keyType blob
  fits : FitsShape keyType blob

section Reading

variable {sha256 : Bytes → Bytes} {data blob : Bytes} {wantType : Option Str}
  {line word keyType body text : Str} {key : KeyCheck}

theorem refuseIf_eq_ok_iff {p : Prop} [Decidable p] {reason : Str} {u : Unit} :
    refuseIf p reason = .ok u ↔ ¬ p := by
  rw [refuseIf]
  split_ifs with h <;> simp [h]

theorem orElim_eq_ok_iff {α : Type} {reason : Str} {found : Option α} {value : α} :
    found.elim (.error reason) Except.ok = .ok value ↔ found = some value := by
  cases found <;> simp

theorem of_readKey (h : readKey sha256 data wantType = .ok key) :
    data.length ≤ maxBytes ∧ (∀ b ∈ data, b.toNat < 128) ∧
      '\n' ∉ lineOf (asciiText data) ∧ keyPattern (lineOf (asciiText data)) = true ∧
      key.reason = [] ∧
      key.keyType = (splitOnChar ' ' (lineOf (asciiText data))).headD [] ∧
      key.body = (splitOnChar ' ' (lineOf (asciiText data))).tail.headD [] ∧
      (∀ word ∈ (splitOnChar ' ' (lineOf (asciiText data))).drop 2,
        word ∉ keyTypes ∧ blobStart word = false) ∧
      (∃ blob, b64decode (asciiBytes key.body) = some blob ∧
        blobNamesType blob key.keyType = true) ∧
      ∀ want ∈ wantType, key.keyType = want := by
  obtain ⟨_, hlarge, h⟩ := bind_eq_ok_iff.mp h
  obtain ⟨_, -, h⟩ := bind_eq_ok_iff.mp h
  obtain ⟨_, htext, h⟩ := bind_eq_ok_iff.mp h
  obtain ⟨_, -, h⟩ := bind_eq_ok_iff.mp h
  obtain ⟨_, hlines, h⟩ := bind_eq_ok_iff.mp h
  obtain ⟨_, hpattern, h⟩ := bind_eq_ok_iff.mp h
  obtain ⟨_, hlater, h⟩ := bind_eq_ok_iff.mp h
  obtain ⟨blob, hblob, h⟩ := bind_eq_ok_iff.mp h
  obtain ⟨_, hnames, h⟩ := bind_eq_ok_iff.mp h
  obtain ⟨_, hwant, h⟩ := bind_eq_ok_iff.mp h
  cases h
  rw [refuseIf_eq_ok_iff] at hlarge htext hlines hpattern hlater hnames hwant
  refine ⟨Nat.not_lt.mp hlarge, fun b hb => ?_, hlines, not_not.mp hpattern, rfl, rfl, rfl,
    fun word hword => ?_, ⟨blob, orElim_eq_ok_iff.mp hblob, not_not.mp hnames⟩, ?_⟩
  · by_contra hlt
    exact htext ⟨b, hb, Nat.not_lt.mp hlt⟩
  · rw [← Bool.not_eq_true, ← not_or]
    intro hkey
    exact hlater ⟨word, hword, hkey⟩
  · rintro want hwanted
    cases hwanted
    simpa using hwant

theorem lineOf_cases (text : Str) : text = lineOf text ∨ text = lineOf text ++ ['\n'] := by
  rw [lineOf]
  split_ifs with h
  · exact Or.inr (List.dropLast_append_getLast? _ h).symm
  · exact Or.inl rfl

theorem matches_cut {shape : KeyShape} (h : shape.matches line = true) :
    ∃ digits pads tail, line = shape.keyType ++ ' ' :: (digits ++ pads ++ tail) ∧
      (∀ c ∈ digits, isBase64Char c = true) ∧ shape.takes digits.length ∧
      (∀ c ∈ pads, c = '=') ∧ pads.length ≤ shape.mostPads ∧ IsTail tail := by
  rw [KeyShape.matches] at h
  simp only [Bool.and_eq_true, decide_eq_true_eq] at h
  obtain ⟨⟨⟨hstart, htakes⟩, -, hmost⟩, hcomment⟩ := h
  obtain ⟨behind, hline⟩ := startsWith_iff.mp hstart
  rw [List.append_assoc, List.singleton_append] at hline
  subst hline
  have hdrop : (shape.keyType ++ ' ' :: behind).drop (shape.keyType.length + 1) = behind := by
    rw [List.drop_append, List.drop_eq_nil_of_le (Nat.le_succ _), List.nil_append,
      Nat.add_sub_cancel_left, List.drop_one, List.tail_cons]
  rw [hdrop] at htakes hmost hcomment
  refine ⟨behind.takeWhile isBase64Char, (behind.dropWhile isBase64Char).takeWhile (· == '='),
    (behind.dropWhile isBase64Char).dropWhile (· == '='), ?_,
    fun c hc => List.mem_takeWhile_imp hc, htakes,
    fun c hc => ?_, hmost, ?_⟩
  · rw [List.append_assoc, List.takeWhile_append_dropWhile, List.takeWhile_append_dropWhile]
  · have hpad := List.mem_takeWhile_imp hc
    exact beq_iff_eq.mp hpad
  · cases htail : (behind.dropWhile isBase64Char).dropWhile (· == '=') with
    | nil => exact Or.inl rfl
    | cons c rest =>
      rw [htail, isComment, Bool.and_eq_true, beq_iff_eq] at hcomment
      obtain ⟨rfl, hrest⟩ := hcomment
      exact Or.inr ⟨rest, rfl, hrest⟩

theorem shape_spec {shape : KeyShape} (h : shape ∈ keyShapes) :
    ' ' ∉ shape.keyType ∧ shape.keyType.length + 4 < shape.digits * 3 / 4 ∧
      shape.keyType.length < 4294967296 := by
  revert shape
  decide

theorem words_of_matches {shape : KeyShape} (hshape : shape ∈ keyShapes)
    (h : shape.matches line = true) :
    ∃ digits pads later, splitOnChar ' ' line = shape.keyType :: (digits ++ pads) :: later ∧
      (∀ c ∈ digits, isBase64Char c = true) ∧ shape.takes digits.length ∧
      (∀ c ∈ pads, c = '=') ∧ pads.length ≤ shape.mostPads := by
  obtain ⟨digits, pads, tail, rfl, hdigits, htakes, hpads, hmost, htail⟩ := matches_cut h
  have hbody : ' ' ∉ digits ++ pads := by
    intro hblank
    rcases List.mem_append.mp hblank with hblank | hblank
    · exact absurd (hdigits _ hblank) (by decide)
    · exact absurd (hpads _ hblank) (by decide)
  have hsplit : ∃ later, splitOnChar ' ' (digits ++ pads ++ tail) = (digits ++ pads) :: later := by
    rcases htail with rfl | ⟨comment, rfl, -⟩
    · rw [List.append_nil, splitOnChar_of_not_mem hbody]
      exact ⟨[], rfl⟩
    · rw [splitOnChar_append, splitOnChar_of_not_mem hbody]
      exact ⟨splitOnChar ' ' comment, rfl⟩
  obtain ⟨later, hlater⟩ := hsplit
  refine ⟨digits, pads, later, ?_, hdigits, htakes, hpads, hmost⟩
  rw [splitOnChar_append, splitOnChar_of_not_mem (shape_spec hshape).1, hlater]
  rfl

theorem ascii_of_isBase64Char {c : Char} (h : isBase64Char c = true) : c.toNat < 128 := by
  have hbody : CiJump.isBase64Body [c] = true := by
    simp [CiJump.isBase64Body, List.takeWhile, List.dropWhile, h]
  exact CiJump.base64Body_ascii hbody c List.mem_cons_self

theorem value_of_isBase64Char {c : Char} (h : isBase64Char c = true) :
    (b64value (UInt8.ofNat c.toNat)).isSome = true :=
  ascii_cases (p := fun c => isBase64Char c = true →
    (b64value (UInt8.ofNat c.toNat)).isSome = true) (by decide) (ascii_of_isBase64Char h) h

theorem isBase64Char_of_value {b : UInt8} (h : (b64value b).isSome = true) :
    isBase64Char (Char.ofNat b.toNat) = true := by
  revert b
  decide +kernel

theorem length_of_body {digits pads : Str} (hdigits : ∀ c ∈ digits, isBase64Char c = true)
    (hpads : ∀ c ∈ pads, c = '=')
    (h : b64decode (asciiBytes (digits ++ pads)) = some blob) :
    blob.length = digits.length * 3 / 4 := by
  have hvalues : ∀ b ∈ digits.map fun c => UInt8.ofNat c.toNat, (b64value b).isSome = true := by
    intro b hb
    obtain ⟨c, hc, rfl⟩ := List.mem_map.mp hb
    exact value_of_isBase64Char (hdigits c hc)
  have hstop : (pads.map fun c => UInt8.ofNat c.toNat).takeWhile
      (fun b => (b64value b).isSome) = [] := by
    cases pads with
    | nil => rfl
    | cons c pads =>
      obtain rfl := hpads c List.mem_cons_self
      exact List.takeWhile_cons_of_neg (by decide)
  rw [length_of_b64decode h, asciiBytes, List.map_append,
    List.takeWhile_append_of_pos hvalues, hstop, List.append_nil, List.length_map]

theorem namesType_of (h : blobNamesType blob keyType = true)
    (hlong : keyType.length + 4 < blob.length) : NamesType keyType blob := by
  obtain _ | ⟨a, _ | ⟨b, _ | ⟨c, _ | ⟨d, rest⟩⟩⟩⟩ := blob
  · cases h
  · cases h
  · cases h
  · cases h
  · have htake : rest.take (lengthValue a b c d) = asciiBytes keyType := of_decide_eq_true h
    have hlength := congrArg List.length htake
    simp only [List.length_cons] at hlong
    rw [List.length_take, asciiBytes, List.length_map] at hlength
    have hvalue : lengthValue a b c d = keyType.length := by omega
    refine ⟨rest.drop (lengthValue a b c d), ?_⟩
    rw [← hvalue, lengthBytes_lengthValue, ← htake, List.append_assoc, List.take_append_drop]
    rfl

theorem blob_start {raw : Bytes} (h : IsBlob wireFormat keyType raw) :
    ∃ more, raw = 0 :: 0 :: 0 :: more ∧ 12 ≤ more.length := by
  obtain ⟨kinds, fields, hformat, rfl, -, hfits⟩ := h
  have htypes : ∀ row ∈ wireFormat, 7 ≤ row.1.length ∧ row.1.length < 256 ∧
      row.2.isEmpty = false := by
    decide
  obtain ⟨hshort, hlong, hkinds⟩ := htypes _ hformat
  simp only at hshort hlong hkinds
  have hlength : (asciiBytes keyType).length = keyType.length := List.length_map _
  have hbytes : lengthBytes keyType.length = [0, 0, 0, UInt8.ofNat (keyType.length % 256)] := by
    rw [lengthBytes, Nat.div_eq_of_lt (by omega), Nat.div_eq_of_lt (by omega),
      Nat.div_eq_of_lt hlong]
    rfl
  cases fields with
  | nil =>
    cases kinds with
    | nil => cases hkinds
    | cons kind kinds => cases hfits
  | cons field fields =>
    refine ⟨UInt8.ofNat (keyType.length % 256) :: (asciiBytes keyType ++
      writeFields (field :: fields)), ?_, ?_⟩
    · rw [writeFields, List.flatMap_cons, hlength, hbytes]
      rfl
    · have hfield : 4 ≤ (writeFields (field :: fields)).length := by
        rw [writeFields, List.flatMap_cons, List.length_append, List.length_append]
        have hfour : (lengthBytes field.length).length = 4 := rfl
        omega
      rw [List.length_cons, List.length_append, hlength]
      omega

theorem blobStart_of_isKeyText (hascii : ∀ c ∈ word, c.toNat < 128) (h : IsKeyText word) :
    blobStart word = true := by
  obtain ⟨keyType, raw, hblob, hdecode⟩ := h
  obtain ⟨more, rfl, hlength⟩ := blob_start hblob
  obtain ⟨w, x, y, z, rest, hword, hbytes, hrest⟩ := b64decode_group hdecode
  obtain ⟨front, back, rfl, hfront, hvalues⟩ := b64decode_front (n := 4) hrest hlength
  obtain ⟨i, j, k, heq, hgroup⟩ := b64group_b64bytes hbytes
  cases heq
  have hfour : [w, x, y, z] = [65, 65, 65, 65] := hgroup.symm.trans (by decide)
  cases hfour
  have htext : word = "AAAA".toList ++ (asciiText front ++ asciiText back) := by
    rw [← CiJump.asciiText_asciiBytes hascii, hword, asciiText, List.map_cons, List.map_cons,
      List.map_cons, List.map_cons, List.map_append]
    rfl
  have hchars : ∀ c ∈ asciiText front, isBase64Char c = true := by
    intro c hc
    obtain ⟨b, hb, rfl⟩ := List.mem_map.mp hc
    exact isBase64Char_of_value (hvalues b hb)
  have hdrop : word.drop 4 = asciiText front ++ asciiText back := by
    rw [htext]
    rfl
  rw [blobStart, Bool.and_eq_true, startsWith_iff, decide_eq_true_eq, hdrop,
    List.takeWhile_append_of_pos hchars, List.length_append]
  refine ⟨⟨_, htext.symm⟩, ?_⟩
  have hsixteen : (asciiText front).length = 16 := (List.length_map _).trans hfront
  omega

/-- **What is accepted.**  A file that is read as a key is one line: a known type, the base64 of a
blob of this type and of the length of its shape, and words of which none is a key. -/
theorem oneKey_of_readKey (h : readKey sha256 data wantType = .ok key) :
    ∃ blob, OneKey data key.keyType key.body blob := by
  obtain ⟨-, hdata, hline, hpattern, -, htype, hbody, hlater, ⟨blob, hblob, hnames⟩, -⟩ :=
    of_readKey h
  have hbytes := CiJump.asciiBytes_asciiText data
  have htext : ∀ c ∈ lineOf (asciiText data), c.toNat < 128 := by
    intro c hc
    have hmem : c ∈ asciiText data := by
      rcases lineOf_cases (asciiText data) with heq | heq
      · rwa [heq]
      · rw [heq]
        exact List.mem_append_left _ hc
    obtain ⟨b, hb, rfl⟩ := List.mem_map.mp hmem
    have hsmall := hdata b hb
    rwa [Char.toNat_ofNat, if_pos (Or.inl (by omega))]
  obtain ⟨shape, hshape, hmatches⟩ := List.any_eq_true.mp hpattern
  obtain ⟨digits, pads, later, hsplit, hdigits, htakes, hpads, -⟩ :=
    words_of_matches hshape hmatches
  rw [hsplit] at htype hbody hlater
  simp only [List.headD_cons, List.tail_cons] at htype hbody
  have hpiece : ∀ word ∈ splitOnChar ' ' (lineOf (asciiText data)), ∀ c ∈ word, c.toNat < 128 :=
    fun word hword c hc => htext c (mem_of_mem_piece hword hc)
  rw [hsplit] at hpiece
  have hlength : blob.length = digits.length * 3 / 4 :=
    length_of_body hdigits hpads (hbody ▸ hblob)
  have hfits : FitsShape key.keyType blob := by
    refine ⟨shape, hshape, htype.symm, ?_⟩
    rw [KeyShape.takes] at htakes
    split_ifs at htakes ⊢
    · omega
    · rw [hlength, htakes]
  refine ⟨blob, ⟨later, fun word hword => ⟨(hlater word hword).1, fun hkey => ?_⟩,
    lineOf (asciiText data), hline, ?_, ?_⟩, ?_, hblob, namesType_of hnames ?_, hfits⟩
  · have hstart := blobStart_of_isKeyText
      (hpiece word (List.mem_cons_of_mem _ (List.mem_cons_of_mem _ hword))) hkey
    rw [(hlater word hword).2] at hstart
    cases hstart
  · rw [hsplit, htype, hbody]
  · rcases lineOf_cases (asciiText data) with heq | heq
    · exact Or.inl (by rw [← heq, hbytes])
    · exact Or.inr (by rw [← heq, hbytes])
  · rw [htype]
    exact List.mem_map_of_mem hshape
  · have hspec := (shape_spec hshape).2.1
    rw [htype, hlength]
    rw [KeyShape.takes] at htakes
    split_ifs at htakes <;> omega

theorem body_of_readKey (h : readKey sha256 data (some "ssh-ed25519".toList) = .ok key) :
    key.keyType = "ssh-ed25519".toList ∧ key.body.length = 68 ∧
      ∀ c ∈ key.body, isBase64Char c = true := by
  obtain ⟨-, -, -, hpattern, -, htype, hbody, -, -, hwant⟩ := of_readKey h
  have hwant := hwant _ rfl
  obtain ⟨shape, hshape, hmatches⟩ := List.any_eq_true.mp hpattern
  obtain ⟨digits, pads, later, hsplit, hdigits, htakes, -, hmost⟩ :=
    words_of_matches hshape hmatches
  rw [hsplit] at htype hbody
  simp only [List.headD_cons, List.tail_cons] at htype hbody
  have hrow : ∀ shape ∈ keyShapes, shape.keyType = "ssh-ed25519".toList →
      shape.digits = 68 ∧ shape.orMore = false ∧ shape.mostPads = 0 := by
    decide
  obtain ⟨hcount, hmore, hnone⟩ := hrow shape hshape (htype.symm.trans hwant)
  rw [hnone, Nat.le_zero, List.length_eq_zero_iff] at hmost
  subst hmost
  rw [KeyShape.takes, hmore, if_neg Bool.false_ne_true, hcount] at htakes
  rw [List.append_nil] at hbody
  rw [hbody]
  exact ⟨hwant, htakes, hdigits⟩

theorem eq_of_decode {b b' raw : Bytes} (hpad : b64pad ∉ b) (h : b64decode b = some raw)
    (h' : b64decode b' = some raw) : b = b' := by
  rcases (b64decode_eq_iff h).mp h' with heq | htwins
  · exact heq
  · obtain ⟨front, padding, unit, c, c', v, v', hpadding, rfl, -⟩ := htwins
    refine absurd ?_ hpad
    cases hpadding <;> simp

theorem pad_not_mem {text : Str} (h : ∀ c ∈ text, isBase64Char c = true) :
    b64pad ∉ asciiBytes text := by
  intro hpad
  obtain ⟨c, hc, heq⟩ := List.mem_map.mp hpad
  have hvalue := value_of_isBase64Char (h c hc)
  rw [heq] at hvalue
  cases hvalue

end Reading

section Reasons

variable {sha256 : Bytes → Bytes} {data : Bytes} {content : Option Bytes} {wantType : Option Str}
  {key : KeyCheck} {reasons : List Str}

def RefusesWith {α : Type} (reasons : List Str) (x : Except Str α) : Prop :=
  ∀ reason, x = .error reason → reason ∈ reasons

theorem RefusesWith.bind {α β : Type} {x : Except Str α} {f : α → Except Str β}
    (hx : RefusesWith reasons x) (hf : ∀ a, RefusesWith reasons (f a)) :
    RefusesWith reasons (x >>= f) := by
  intro reason h
  cases x with
  | error e =>
    cases h
    exact hx _ rfl
  | ok a => exact hf a reason h

theorem refusesWith_refuseIf {p : Prop} [Decidable p] {reason : Str} (h : reason ∈ reasons) :
    RefusesWith reasons (refuseIf p reason) := by
  intro other hother
  rw [refuseIf] at hother
  split_ifs at hother
  cases hother
  exact h

theorem refusesWith_elim {α : Type} {reason : Str} (h : reason ∈ reasons) (found : Option α) :
    RefusesWith reasons (found.elim (.error reason) Except.ok) := by
  intro other hother
  cases found with
  | none =>
    cases hother
    exact h
  | some value => cases hother

theorem shapeReason_mem (line : Str) : shapeReason line ∈ keyReasons := by
  unfold shapeReason
  simp only
  split_ifs
  · exact List.mem_of_getElem? (i := 5) rfl
  · exact List.mem_of_getElem? (i := 6) rfl

theorem refusesWith_readKey : RefusesWith keyReasons (readKey sha256 data wantType) := by
  have hreasons : ∀ reason ∈ ["too_large".toList, "private_key".toList, "not_text".toList,
      "empty".toList, "several_lines".toList, "bad_shape".toList, "several_keys".toList,
      "wrong_type".toList], reason ∈ keyReasons := by
    decide
  refine .bind (refusesWith_refuseIf (hreasons _ (by decide))) fun _ => ?_
  refine .bind (refusesWith_refuseIf (hreasons _ (by decide))) fun _ => ?_
  refine .bind (refusesWith_refuseIf (hreasons _ (by decide))) fun _ => ?_
  refine .bind (refusesWith_refuseIf (hreasons _ (by decide))) fun _ => ?_
  refine .bind (refusesWith_refuseIf (hreasons _ (by decide))) fun _ => ?_
  refine .bind (refusesWith_refuseIf (shapeReason_mem _)) fun _ => ?_
  refine .bind (refusesWith_refuseIf (hreasons _ (by decide))) fun _ => ?_
  refine .bind (refusesWith_elim (hreasons _ (by decide)) _) fun _ => ?_
  refine .bind (refusesWith_refuseIf (hreasons _ (by decide))) fun _ => ?_
  refine .bind (refusesWith_refuseIf (hreasons _ (by decide))) fun _ => ?_
  intro reason h
  cases h

theorem checkFile_cases (sha256 : Bytes → Bytes) (content : Option Bytes)
    (wantType : Option Str) :
    (∃ data, content = some data ∧ data.length ≤ maxBytes ∧
        readKey sha256 data wantType = .ok (checkFile sha256 content wantType)) ∨
      (checkFile sha256 content wantType).reason ∈ keyReasons := by
  cases content with
  | none => exact Or.inr (by rw [checkFile, refused]; decide)
  | some data =>
    rw [checkFile, checkText]
    cases hread : readKey sha256 (data.take (maxBytes + 1)) wantType with
    | error reason => exact Or.inr (refusesWith_readKey reason hread)
    | ok key =>
      left
      obtain ⟨hlength, -⟩ := of_readKey hread
      rw [List.length_take] at hlength
      have hshort : data.length ≤ maxBytes := by omega
      rw [List.take_of_length_le (by omega)] at hread
      exact ⟨data, rfl, hshort, hread⟩

theorem keyReason_ne_nil {reason : Str} (h : reason ∈ keyReasons) : reason ≠ [] := by
  revert reason
  decide

theorem checkFile_ok_iff : (checkFile sha256 content wantType).ok = true ↔
    ∃ data, content = some data ∧
      readKey sha256 data wantType = .ok (checkFile sha256 content wantType) := by
  rw [KeyCheck.ok, List.isEmpty_iff]
  constructor
  · intro h
    rcases checkFile_cases sha256 content wantType with ⟨data, hcontent, -, hread⟩ | hreason
    · exact ⟨data, hcontent, hread⟩
    · exact absurd h (keyReason_ne_nil hreason)
  · rintro ⟨data, -, hread⟩
    obtain ⟨-, -, -, -, hreason, -⟩ := of_readKey hread
    exact hreason

theorem checkText_ok_iff : (checkText sha256 data wantType).ok = true ↔
    readKey sha256 data wantType = .ok (checkText sha256 data wantType) := by
  rw [KeyCheck.ok, List.isEmpty_iff, checkText]
  cases hread : readKey sha256 data wantType with
  | error reason =>
    refine iff_of_false (keyReason_ne_nil (refusesWith_readKey reason hread)) fun h => ?_
    cases h
  | ok key =>
    obtain ⟨-, -, -, -, hreason, -⟩ := of_readKey hread
    exact iff_of_true hreason rfl

end Reasons

end SharedInfra.CiKeys
