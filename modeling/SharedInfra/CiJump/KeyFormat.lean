import SharedInfra.CiJump.LineRoundTrip
import SharedInfra.Python.Base64Spelling

/-!
# The format of a public key

`_key_parts` against the wire format of a public key: the type, then the fields
of that type, each after its length.  It takes a text that is a key line of one
key, but for two things (`keyParts_eq_some_iff`): it does not look at the bits of the
base64 text beyond the last byte, and of an `sk-ecdsa` key not at the curve
(`wholeKey_iff`).
-/

namespace SharedInfra.CiJump

open Python Sequences

/-- What a field of a key holds. -/
inductive FieldKind where
  | sized (n : Nat)
  | named (curve : Str)
  | anything

def FieldKind.Fits : FieldKind → Bytes → Prop
  | .sized n, field => field.length = n
  | .named curve, field => field = asciiBytes curve
  | .anything, field => field ≠ []

/-- The types that hold a curve, with its name. -/
def curveKinds (curve : Str) : List FieldKind := [.named curve, .anything]

def skEcdsa : Str := "sk-ecdsa-sha2-nistp256@openssh.com".toList

/-- The fields after the type, for each type but `skEcdsa`. -/
def commonFormat : List (Str × List FieldKind) :=
  [("ssh-ed25519".toList, [.sized 32]),
    ("ssh-rsa".toList, [.anything, .anything]),
    ("ecdsa-sha2-nistp256".toList, curveKinds "nistp256".toList),
    ("ecdsa-sha2-nistp384".toList, curveKinds "nistp384".toList),
    ("ecdsa-sha2-nistp521".toList, curveKinds "nistp521".toList),
    ("sk-ssh-ed25519@openssh.com".toList, [.sized 32, .anything])]

/-- The fields of each type of key after the type, with `skCurve` for the curve of `skEcdsa`. -/
def formatWith (skCurve : FieldKind) : List (Str × List FieldKind) :=
  commonFormat ++ [(skEcdsa, [skCurve, .anything, .anything])]

def wireFormat : List (Str × List FieldKind) := formatWith (.named "nistp256".toList)

def IsBlob (format : List (Str × List FieldKind)) (keyType : Str) (raw : Bytes) : Prop :=
  ∃ kinds fields, (keyType, kinds) ∈ format ∧ raw = writeFields (asciiBytes keyType :: fields) ∧
    (∀ field ∈ fields, field.length < 4294967296) ∧ List.Forall₂ FieldKind.Fits kinds fields

def asciiText (raw : Bytes) : Str := raw.map fun c => Char.ofNat c.toNat

/-- Nothing, or a blank and a comment that prints. -/
def IsTail (tail : Str) : Prop :=
  tail = [] ∨ ∃ comment, tail = ' ' :: comment ∧ comment.all isPrintableAscii = true

/-- A text that is one key: its type, the base64 of its blob, and perhaps a comment. -/
def WholeKey (text : Str) (parts : Str × Str) : Prop :=
  ∃ raw tail, text = parts.1 ++ ' ' :: (parts.2 ++ tail) ∧ IsTail tail ∧
    IsBlob wireFormat parts.1 raw ∧ parts.2 = asciiText (b64encode raw)

/-- The same with any base64 text of the blob and any curve of an `skEcdsa` key. -/
def NearKey (text : Str) (parts : Str × Str) : Prop :=
  ∃ raw tail, text = parts.1 ++ ' ' :: (parts.2 ++ tail) ∧ IsTail tail ∧
    IsBlob (formatWith .anything) parts.1 raw ∧ isBase64Body parts.2 = true ∧
    b64decode (asciiBytes parts.2) = some raw

/-- The field of a blob after its type. -/
def secondField (raw : Bytes) : Option Bytes := (readFields raw.length raw).bind (·[1]?)

/-- The bits beyond the last byte are zero, and an `skEcdsa` key names its curve. -/
def WellSpelled (parts : Str × Str) : Prop :=
  ∀ raw, b64decode (asciiBytes parts.2) = some raw → parts.2 = asciiText (b64encode raw) ∧
      (parts.1 = skEcdsa → secondField raw = some (asciiBytes "nistp256".toList))

section Fields

variable {keyType : Str} {pieces : List Bytes}

theorem fieldsFit_iff {fields : List Bytes} {expected : List (Option Nat)} :
    fieldsFit fields expected = true ↔
      List.Forall₂ (fun size field => field ≠ [] ∧ ∀ n, size = some n → field.length = n)
        expected fields := by
  induction fields generalizing expected with
  | nil => cases expected <;> simp [fieldsFit]
  | cons field fields ih =>
    cases expected with
    | nil => simp [fieldsFit]
    | cons size expected =>
      rw [fieldsFit, List.forall₂_cons, ← ih, Bool.and_eq_true, Bool.and_eq_true]
      cases size <;> simp

def SameFields (expected : List (Option Nat)) (kinds : List FieldKind) : Prop :=
  List.Forall₂ (fun size kind => (size = none ∧ kind = .anything) ∨
    ∃ n, 0 < n ∧ size = some n ∧ kind = .sized n) expected kinds

theorem fieldsFit_iff_kinds {fields : List Bytes} {expected : List (Option Nat)}
    {kinds : List FieldKind} (h : SameFields expected kinds) :
    fieldsFit fields expected = true ↔ List.Forall₂ FieldKind.Fits kinds fields := by
  rw [fieldsFit_iff]
  induction h generalizing fields with
  | nil => cases fields <;> simp
  | cons hhead _ ih =>
    cases fields with
    | nil => simp
    | cons field fields =>
      rw [List.forall₂_cons, List.forall₂_cons, ih]
      refine and_congr_left fun _ => ?_
      rcases hhead with ⟨rfl, rfl⟩ | ⟨n, hn, rfl, rfl⟩
      · simp [FieldKind.Fits]
      · simp only [FieldKind.Fits, Option.some.injEq]
        constructor
        · exact fun h => h.2 n rfl
        · intro hlength
          refine ⟨?_, fun m hm => hm ▸ hlength⟩
          rintro rfl
          simp at hlength
          omega

theorem piecesFit_plain {expected : List (Option Nat)} {kinds : List FieldKind}
    (hplain : startsWith keyType ecdsaPrefix = false) (hsame : SameFields expected kinds) :
    piecesFit keyType expected pieces = true ↔
      ∃ fields, pieces = asciiBytes keyType :: fields ∧ List.Forall₂ FieldKind.Fits kinds fields := by
  cases pieces with
  | nil => simp [piecesFit]
  | cons named fields =>
    simp only [piecesFit, hplain, Bool.not_false, Bool.true_or, Bool.and_true, Bool.and_eq_true,
      decide_eq_true_eq, fieldsFit_iff_kinds hsame, List.cons.injEq]
    constructor
    · rintro ⟨rfl, h⟩
      exact ⟨fields, ⟨rfl, rfl⟩, h⟩
    · rintro ⟨_, ⟨rfl, rfl⟩, h⟩
      exact ⟨rfl, h⟩

theorem piecesFit_curve {curve : Str} (hcurve : startsWith keyType ecdsaPrefix = true)
    (hname : keyType.drop ecdsaPrefix.length = curve) (hne : curve ≠ []) :
    piecesFit keyType [none, none] pieces = true ↔ ∃ fields, pieces = asciiBytes keyType :: fields ∧
        List.Forall₂ FieldKind.Fits (curveKinds curve) fields := by
  cases pieces with
  | nil => simp [piecesFit]
  | cons named fields =>
    have hbytes : asciiBytes curve ≠ [] := by simpa [asciiBytes] using hne
    have hfields : (fieldsFit fields [none, none] = true ∧ fields.head? = some (asciiBytes curve)) ↔
        List.Forall₂ FieldKind.Fits (curveKinds curve) fields := by
      match fields with
      | [] => simp [fieldsFit, curveKinds]
      | [f] => simp [fieldsFit, curveKinds]
      | [f, g] =>
        simp only [fieldsFit, curveKinds, List.forall₂_cons, FieldKind.Fits, List.head?_cons,
          Option.all_none, Bool.and_true, Bool.and_eq_true, Bool.not_eq_true',
          List.isEmpty_eq_false_iff, Option.some.injEq, List.Forall₂.nil, and_true]
        constructor
        · exact fun h => ⟨h.2, h.1.2⟩
        · rintro ⟨rfl, hg⟩
          exact ⟨⟨hbytes, hg⟩, rfl⟩
      | f :: g :: k :: rest => simp [fieldsFit, curveKinds]
    simp only [piecesFit, hcurve, Bool.not_true, Bool.false_or, hname, Bool.and_eq_true,
      decide_eq_true_eq, and_assoc, hfields, List.cons.injEq]
    constructor
    · rintro ⟨rfl, h⟩
      exact ⟨fields, rfl, rfl, h⟩
    · rintro ⟨_, rfl, rfl, h⟩
      exact ⟨rfl, h⟩

/-- One row of `KEY_FIELDS` and one of the format ask the same of the pieces. -/
def RowsAgree (row : Str × List (Option Nat)) (row' : Str × List FieldKind) : Prop :=
  row.1 = row'.1 ∧ ∀ pieces, piecesFit row.1 row.2 pieces = true ↔
    ∃ fields, pieces = asciiBytes row.1 :: fields ∧ List.Forall₂ FieldKind.Fits row'.2 fields

theorem rowsAgree : List.Forall₂ RowsAgree keyFields (formatWith .anything) := by
  have hlong : SameFields [some 32, none] [.sized 32, .anything] :=
    .cons (.inr ⟨32, by decide, rfl, rfl⟩) (.cons (.inl ⟨rfl, rfl⟩) .nil)
  have htwo : SameFields [none, none] [.anything, .anything] :=
    .cons (.inl ⟨rfl, rfl⟩) (.cons (.inl ⟨rfl, rfl⟩) .nil)
  have hthree : SameFields [none, none, none] [.anything, .anything, .anything] :=
    .cons (.inl ⟨rfl, rfl⟩) htwo
  refine .cons ⟨rfl, fun _ => piecesFit_plain (by decide)
    (.cons (.inr ⟨32, by decide, rfl, rfl⟩) .nil)⟩ ?_
  refine .cons ⟨rfl, fun _ => piecesFit_plain (by decide) htwo⟩ ?_
  refine .cons ⟨rfl, fun _ => piecesFit_curve (by decide) (by decide)
    (by decide)⟩ ?_
  refine .cons ⟨rfl, fun _ => piecesFit_curve (by decide) (by decide)
    (by decide)⟩ ?_
  refine .cons ⟨rfl, fun _ => piecesFit_curve (by decide) (by decide)
    (by decide)⟩ ?_
  refine .cons ⟨rfl, fun _ => piecesFit_plain (by decide) hlong⟩ ?_
  exact .cons ⟨rfl, fun _ => piecesFit_plain (by decide) hthree⟩ .nil

end Fields

section Texts

variable {text keyType body : Str}

theorem readFields_blob {kinds : List FieldKind} {raw : Bytes} {fields : List Bytes}
    (h : (keyType, kinds) ∈ formatWith .anything)
    (hraw : raw = writeFields (asciiBytes keyType :: fields))
    (hsizes : ∀ field ∈ fields, field.length < 4294967296) :
    readFields raw.length raw = some (asciiBytes keyType :: fields) := by
  obtain ⟨row, hrow, hname, -⟩ := exists_mem_of_forall₂' rowsAgree h
  have hname : row.1 = keyType := hname
  have htype : ∀ row ∈ keyFields, (asciiBytes row.1).length < 4294967296 := by decide
  have hsize := htype row hrow
  rw [hname] at hsize
  refine readFields_iff.mpr ⟨hraw, fun field hfield => ?_⟩
  rcases List.mem_cons.mp hfield with rfl | hfield
  · exact hsize
  · exact hsizes field hfield

theorem piecesFit_iff_isBlob {raw : Bytes} :
    (∃ expected pieces, keyFields.lookup keyType = some expected ∧
        readFields raw.length raw = some pieces ∧ piecesFit keyType expected pieces = true) ↔
      IsBlob (formatWith .anything) keyType raw := by
  have hnodup : (keyFields.map Prod.fst).Nodup := by decide
  constructor
  · rintro ⟨expected, pieces, hlookup, hread, hfit⟩
    have hrow := Sequences.mem_of_lookup hlookup
    obtain ⟨⟨keyType', kinds⟩, hmem, hname, hagree⟩ := exists_mem_of_forall₂ rowsAgree hrow
    obtain rfl : keyType = keyType' := hname
    obtain ⟨fields, rfl, hfields⟩ := (hagree pieces).mp hfit
    obtain ⟨hraw, hsizes⟩ := readFields_iff.mp hread
    exact ⟨kinds, fields, hmem, hraw, (List.forall_mem_cons.mp hsizes).2, hfields⟩
  · rintro ⟨kinds, fields, hmem, hraw, hsizes, hfields⟩
    obtain ⟨⟨keyType', expected⟩, hrow, hname, hagree⟩ := exists_mem_of_forall₂' rowsAgree hmem
    obtain rfl : keyType' = keyType := hname
    exact ⟨expected, _, lookup_of_mem hnodup hrow, readFields_blob hmem hraw hsizes,
      (hagree _).mpr ⟨fields, rfl, hfields⟩⟩

theorem base64Body_plain (h : isBase64Body body = true) :
    ∀ c ∈ body, c.toNat < 128 ∧ isPrintableAscii c = true ∧ c ≠ ' ' := by
  intro c hc
  have hascii := base64Body_ascii h c hc
  have hprint := ascii_cases (p := fun c => isBase64Char c = true ∨ c = '=' →
    isPrintableAscii c = true ∧ c ≠ ' ') (by decide) hascii (base64Body_chars h c hc)
  exact ⟨hascii, hprint⟩

theorem keyType_plain {kinds : List FieldKind} (h : (keyType, kinds) ∈ formatWith .anything) :
    keyType.all (fun c => decide (c.toNat < 128) && isPrintableAscii c && c != ' ') = true := by
  obtain ⟨row, hrow, hname, -⟩ := exists_mem_of_forall₂' rowsAgree h
  have hall : keyFields.all (fun row =>
      row.1.all fun c => decide (c.toNat < 128) && isPrintableAscii c && c != ' ') = true := by
    decide
  have := List.all_eq_true.mp hall row hrow
  rwa [show row.1 = keyType from hname] at this

theorem keyParts_eq_some_iff {parts : Str × Str} :
    keyParts text = some parts ↔ NearKey text parts := by
  constructor
  · intro h
    rw [keyParts] at h
    by_cases hascii : (!isAscii text || !text.all isPrintableAscii) = true
    · rw [if_pos hascii] at h
      cases h
    rw [if_neg hascii] at h
    split at h
    · rename_i keyType body more hsplit
      simp only [Option.bind_eq_bind, Option.bind_eq_some_iff] at h
      obtain ⟨expected, hexpected, h⟩ := h
      by_cases hbody : (!isBase64Body body) = true
      · rw [if_pos hbody] at h
        cases h
      rw [if_neg hbody] at h
      simp only [Option.bind_eq_some_iff] at h
      obtain ⟨raw, hraw, pieces, hpieces, h⟩ := h
      by_cases hfit : piecesFit keyType expected pieces = true
      · rw [if_pos hfit, Option.some.injEq] at h
        subst h
        have htext := joinWith_splitOnChar ' ' text
        rw [hsplit, joinWith_cons_cons, List.append_assoc, List.singleton_append] at htext
        have hprint : text.all isPrintableAscii = true := by
          simp only [Bool.or_eq_true, Bool.not_eq_true', not_or, Bool.not_eq_false] at hascii
          exact hascii.2
        refine ⟨raw, if more = [] then [] else ' ' :: joinWith [' '] more, ?_, ?_,
          piecesFit_iff_isBlob.mp ⟨expected, pieces, hexpected, hpieces, hfit⟩,
          by simpa using hbody, hraw⟩
        · cases more with
          | nil => simpa [joinWith] using htext.symm
          | cons next rest =>
            rw [joinWith_cons_cons, List.append_assoc, List.singleton_append] at htext
            rw [if_neg (List.cons_ne_nil _ _)]
            exact htext.symm
        · cases more with
          | nil => exact Or.inl rfl
          | cons next rest =>
            refine Or.inr ⟨_, if_neg (List.cons_ne_nil _ _), ?_⟩
            rw [joinWith_cons_cons, List.append_assoc, List.singleton_append] at htext
            rw [← htext] at hprint
            simp only [List.all_append, List.all_cons, Bool.and_eq_true] at hprint
            exact hprint.2.2.2.2
      · rw [if_neg hfit] at h
        cases h
    · cases h
  · obtain ⟨keyType, body⟩ := parts
    rintro ⟨raw, tail, rfl, htail, hblob, hbody, hraw⟩
    simp only at hblob hbody hraw ⊢
    obtain ⟨kinds, fields, hmem, -⟩ := id hblob
    have htype := keyType_plain hmem
    simp only [List.all_eq_true, Bool.and_eq_true, decide_eq_true_eq, bne_iff_ne] at htype
    have hbodyPlain := base64Body_plain hbody
    have hsplit : ∃ more, splitOnChar ' ' (keyType ++ ' ' :: (body ++ tail)) =
        keyType :: body :: more := by
      have hkeyType : ' ' ∉ keyType := fun h => (htype ' ' h).2 rfl
      have hbody : ' ' ∉ body := fun h => (hbodyPlain ' ' h).2.2 rfl
      rw [splitOnChar_append, splitOnChar_of_not_mem hkeyType]
      rcases htail with rfl | ⟨comment, rfl, -⟩
      · rw [List.append_nil, splitOnChar_of_not_mem hbody]
        exact ⟨[], rfl⟩
      · rw [splitOnChar_append, splitOnChar_of_not_mem hbody]
        exact ⟨splitOnChar ' ' comment, rfl⟩
    have hprint : ∀ c ∈ keyType ++ ' ' :: (body ++ tail),
        c.toNat < 128 ∧ isPrintableAscii c = true := by
      intro c hc
      simp only [List.mem_append, List.mem_cons] at hc
      rcases hc with hc | rfl | hc | hc
      · exact (htype c hc).1
      · decide
      · exact ⟨(hbodyPlain c hc).1, (hbodyPlain c hc).2.1⟩
      · rcases htail with rfl | ⟨comment, rfl, hcomment⟩
        · cases hc
        · rcases List.mem_cons.mp hc with rfl | hc
          · decide
          · have hc := List.all_eq_true.mp hcomment c hc
            refine ⟨?_, hc⟩
            rw [isPrintableAscii, decide_eq_true_eq] at hc
            omega
    have hascii : ¬(!isAscii (keyType ++ ' ' :: (body ++ tail)) ||
        !(keyType ++ ' ' :: (body ++ tail)).all isPrintableAscii) = true := by
      rw [Bool.or_eq_true, Bool.not_eq_true', Bool.not_eq_true', not_or, Bool.not_eq_false,
        Bool.not_eq_false, isAscii, List.all_eq_true, List.all_eq_true]
      exact ⟨fun c hc => decide_eq_true (hprint c hc).1, fun c hc => (hprint c hc).2⟩
    obtain ⟨more, hsplit⟩ := hsplit
    obtain ⟨expected, pieces, hexpected, hpieces, hfit⟩ := piecesFit_iff_isBlob.mpr hblob
    have hbody' : ¬(!isBase64Body body) = true := by simpa using hbody
    rw [keyParts, if_neg hascii, hsplit]
    simp only [hexpected, hraw, hpieces, if_neg hbody', if_pos hfit, Option.bind_eq_bind,
      Option.bind_some]

theorem asciiBytes_asciiText (raw : Bytes) : asciiBytes (asciiText raw) = raw := by
  have hbyte : ∀ b : UInt8, UInt8.ofNat (Char.ofNat b.toNat).toNat = b := by decide +kernel
  rw [asciiBytes, asciiText, List.map_map]
  exact (List.map_congr_left fun b _ => hbyte b).trans (List.map_id _)

theorem asciiText_asciiBytes {s : Str} (h : ∀ c ∈ s, c.toNat < 128) :
    asciiText (asciiBytes s) = s := by
  have hchar : ∀ c ∈ s, Char.ofNat (UInt8.ofNat c.toNat).toNat = c := by
    intro c hc
    exact ascii_cases (p := fun c => Char.ofNat (UInt8.ofNat c.toNat).toNat = c)
      (by decide) (h c hc)
  rw [asciiBytes, asciiText, List.map_map]
  exact (List.map_congr_left hchar).trans (List.map_id _)

theorem isBase64Body_b64encode {raw : Bytes} (hne : raw ≠ []) :
    isBase64Body (asciiText (b64encode raw)) = true := by
  obtain ⟨digits, padding, heq, hdigits, hpadding, hlength, hdigitsne⟩ := b64encode_eq_digits raw
  have hchars : ∀ c : UInt8, (b64value c).isSome = true → isBase64Char (Char.ofNat c.toNat) = true := by
    decide +kernel
  have hpad : ∀ c ∈ asciiText padding, c = '=' := by
    intro c hc
    obtain ⟨b, hb, rfl⟩ := List.mem_map.mp hc
    rw [hpadding b hb]
    rfl
  have hdigit : ∀ c ∈ asciiText digits, isBase64Char c = true := by
    intro c hc
    obtain ⟨b, hb, rfl⟩ := List.mem_map.mp hc
    exact hchars b (hdigits b hb)
  have hstop : (asciiText padding).takeWhile isBase64Char = [] ∧
      (asciiText padding).dropWhile isBase64Char = asciiText padding := by
    cases hp : asciiText padding with
    | nil => exact ⟨rfl, rfl⟩
    | cons c rest =>
      have hc : c = '=' := hpad c (by simp [hp])
      have hnot : isBase64Char '=' = false := rfl
      subst hc
      exact ⟨List.takeWhile_cons_of_neg (by simp [hnot]),
        List.dropWhile_cons_of_neg (by simp [hnot])⟩
  have htext : asciiText (b64encode raw) = asciiText digits ++ asciiText padding := by
    rw [heq, asciiText, List.map_append]
    rfl
  rw [isBase64Body, htext, List.takeWhile_append_of_pos hdigit, List.dropWhile_append_of_pos hdigit,
    hstop.1, hstop.2, List.append_nil]
  simp only [Bool.and_eq_true, Bool.not_eq_true', List.isEmpty_eq_false_iff, List.all_eq_true,
    beq_iff_eq, decide_eq_true_eq]
  refine ⟨⟨?_, hpad⟩, ?_⟩
  · intro hnil
    exact hdigitsne hne (List.map_eq_nil_iff.mp hnil)
  · rw [asciiText, List.length_map]
    exact hlength

theorem isBlob_wireFormat_iff {raw : Bytes} :
    IsBlob wireFormat keyType raw ↔ IsBlob (formatWith .anything) keyType raw ∧
      (keyType = skEcdsa → secondField raw = some (asciiBytes "nistp256".toList)) := by
  have hcommon : ∀ kinds, (skEcdsa, kinds) ∉ commonFormat := by
    intro kinds hmem
    have hnames : skEcdsa ∉ commonFormat.map Prod.fst := by decide
    exact hnames (List.mem_map_of_mem hmem)
  have hcurve : asciiBytes "nistp256".toList ≠ [] := by decide
  have hsecond : ∀ {fields : List Bytes}, raw = writeFields (asciiBytes skEcdsa :: fields) →
      (∀ field ∈ fields, field.length < 4294967296) → secondField raw = fields[0]? := by
    intro fields hraw hsizes
    have hmem : (skEcdsa, [.anything, .anything, .anything]) ∈ formatWith .anything :=
      List.mem_append_right commonFormat (List.mem_singleton_self _)
    rw [secondField, readFields_blob hmem hraw hsizes]
    rfl
  constructor
  · rintro ⟨kinds, fields, hmem, hraw, hsizes, hfields⟩
    rcases List.mem_append.mp hmem with hmem | hmem
    · refine ⟨⟨kinds, fields, List.mem_append_left _ hmem, hraw, hsizes, hfields⟩, ?_⟩
      rintro rfl
      exact absurd hmem (hcommon kinds)
    · obtain ⟨rfl, rfl⟩ := Prod.mk.inj (List.mem_singleton.mp hmem)
      cases hfields with
      | cons hfirst hrest =>
        obtain rfl : _ = asciiBytes "nistp256".toList := hfirst
        refine ⟨⟨_, _, List.mem_append_right _ (List.mem_singleton_self _), hraw, hsizes,
          .cons hcurve hrest⟩, fun _ => hsecond hraw hsizes⟩
  · rintro ⟨⟨kinds, fields, hmem, hraw, hsizes, hfields⟩, hname⟩
    rcases List.mem_append.mp hmem with hmem | hmem
    · exact ⟨kinds, fields, List.mem_append_left _ hmem, hraw, hsizes, hfields⟩
    · obtain ⟨rfl, rfl⟩ := Prod.mk.inj (List.mem_singleton.mp hmem)
      cases hfields with
      | cons hfirst hrest =>
        have hread := hname rfl
        rw [hsecond hraw hsizes] at hread
        exact ⟨_, _, List.mem_append_right _ (List.mem_singleton_self _), hraw, hsizes,
          .cons (Option.some.inj hread) hrest⟩

theorem wholeKey_iff {parts : Str × Str} :
    WholeKey text parts ↔ NearKey text parts ∧ WellSpelled parts := by
  constructor
  · rintro ⟨raw, tail, htext, htail, hblob, hbody⟩
    have hdecode : b64decode (asciiBytes parts.2) = some raw := by
      rw [hbody, asciiBytes_asciiText, b64decode_b64encode]
    have hne : raw ≠ [] := by
      obtain ⟨kinds, fields, -, rfl, -⟩ := hblob
      simp [writeFields, lengthBytes]
    obtain ⟨hnear, hcurve⟩ := isBlob_wireFormat_iff.mp hblob
    refine ⟨⟨raw, tail, htext, htail, hnear, hbody ▸ isBase64Body_b64encode hne, hdecode⟩, ?_⟩
    intro raw' hraw'
    obtain rfl : raw = raw' := Option.some.inj (hdecode.symm.trans hraw')
    exact ⟨hbody, hcurve⟩
  · rintro ⟨⟨raw, tail, htext, htail, hblob, -, hraw⟩, hspelled⟩
    obtain ⟨hbody, hcurve⟩ := hspelled raw hraw
    exact ⟨raw, tail, htext, htail, isBlob_wireFormat_iff.mpr ⟨hblob, hcurve⟩, hbody⟩

end Texts

end SharedInfra.CiJump
