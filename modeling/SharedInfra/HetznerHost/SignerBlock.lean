import SharedInfra.HetznerHost.Enrolment
import SharedInfra.HetznerHost.Packets

/-!
# Signer blocks

`assertPgpPublicKeyBlock` of `cloudInit.ts`, and what RFC 4880 takes an armoured block to be.  The
program drops every line of the data that begins with `=` and decodes with a decoder that skips
padding, so what it checked is what gpg reads where the lines of the block are in order
(`accepts_iff`).
-/

namespace SharedInfra.HetznerHost

open CiJump (isBase64Char isBase64Body asciiBytes)
open Python

def pgpBegin : Str := "-----BEGIN PGP PUBLIC KEY BLOCK-----".toList

def pgpEnd : Str := "-----END PGP PUBLIC KEY BLOCK-----".toList

def pgpPublicKeyTag : Nat := 6

def pgpPublicPacketTags : List Nat := [2, pgpPublicKeyTag, 13, 14, 17]

/-- The lines of a block; a line break at its end begins no line. -/
def blockLines (block : Str) : List Str :=
  splitOnChar '\n' (if block.getLast? = some '\n' then block.dropLast else block)

def valueBytes (p q r s : Nat) : Bytes :=
  let n := p * 262144 + q * 4096 + r * 64 + s
  [UInt8.ofNat (n / 65536), UInt8.ofNat (n / 256 % 256), UInt8.ofNat (n % 256)]

/-- The bytes of the values that a decoder has read; a single value at the end gives none. -/
def bufferOf : List Nat → Bytes
  | p :: q :: r :: s :: rest => valueBytes p q r s ++ bufferOf rest
  | [p, q, r] => (valueBytes p q r 0).take 2
  | [p, q] => (valueBytes p q 0 0).take 1
  | _ => []

/-- `Buffer.from(text, 'base64')`, for letters of the alphabet and `=`, which it skips. -/
def bufferFrom (text : Str) : Bytes := bufferOf ((asciiBytes text).filterMap b64value)

/-- The lines after the blank line that are taken as data. -/
def dataLines (body : List Str) : List Str := body.filter fun line => decide (line.head? ≠ some '=')

/-- The end of the check, of the tags that were read. -/
def assertPublicTags (block : Str) : List Nat → Except Str Str
  | [] => .error "A signer key block must start with an OpenPGP packet.".toList
  | first :: tags =>
    if first ≠ pgpPublicKeyTag then
      .error "The first packet of a signer key must be a public key, not a secret key.".toList
    else match (first :: tags).find? fun tag => decide (tag ∉ pgpPublicPacketTags) with
      | some stray => .error ("A signer key block holds an OpenPGP packet of type ".toList ++
          decimal stray ++ ", which is not part of a public key.".toList)
      | none => .ok block

def assertPgpPublicKeyBlock (block : Str) : Except Str Str :=
  let lines := blockLines block
  if lines.head? ≠ some pgpBegin ∨ lines.getLast? ≠ some pgpEnd then
    .error "A signer key must be one armoured OpenPGP public key block and nothing else.".toList
  else
    let inner := lines.tail.dropLast
    if inner.any (occursIn "-----".toList) then
      .error "A signer key block must not contain any other armour line.".toList
    else if [] ∉ inner then
      .error "A signer key block must have a blank line before its data.".toList
    else
      let data := dataLines (inner.drop (inner.idxOf [] + 1))
      if data = [] ∨ ¬ data.all isBase64Body then
        .error "A signer key block must hold base64 data.".toList
      else do
        let tags ← pgpPacketTags (bufferFrom data.flatten)
        assertPublicTags block tags

def isBlankLine (line : Str) : Bool := line.all fun c => c == ' ' || c == '\t'

/-- A checksum line: `=` and four letters. -/
def IsChecksum (line : Str) : Prop :=
  ∃ digits : Str, line = '=' :: digits ∧ digits.length = 4 ∧ ∀ c ∈ digits, isBase64Char c = true

structure Armoured (block : Str) (headers : List Str) (blank : Str) (data : List Str)
    (checksum : Option Str) : Prop where
  lines : blockLines block = pgpBegin :: (headers ++ blank :: (data ++ checksum.toList) ++ [pgpEnd])
  headers_text : ∀ line ∈ headers, isBlankLine line = false
  blank_line : isBlankLine blank = true
  data_base64 : ∀ line ∈ data, line ≠ [] ∧ ∀ c ∈ line, isBase64Char c = true ∨ c = '='
  checksum_form : ∀ line ∈ checksum, IsChecksum line

def IsPublicKey (raw : Bytes) : Prop :=
  ∃ tags, Packets raw tags ∧ tags.head? = some pgpPublicKeyTag ∧
    ∀ tag ∈ tags, tag ∈ pgpPublicPacketTags

/-- A block that holds a public key and nothing else. -/
def IsSignerBlock (block : Str) : Prop :=
  ∃ headers blank data checksum raw, Armoured block headers blank data checksum ∧
    b64decode (asciiBytes data.flatten) = some raw ∧ IsPublicKey raw

/-- The lines are in order: the blank line is empty, padding stands at the end of the data only,
and no line but a checksum at the end is beside them. -/
def InOrder (block : Str) : Prop :=
  ∃ headers data checksum, Armoured block headers [] data checksum ∧
    (b64decode (asciiBytes data.flatten)).isSome = true

/-- The lines that the program takes for the data hold the packets of a public key. -/
def TakenAsKey (block : Str) : Prop :=
  ∃ headers body, blockLines block = pgpBegin :: (headers ++ [] :: body ++ [pgpEnd]) ∧
    [] ∉ headers ∧ (∀ line ∈ headers ++ body, occursIn "-----".toList line = false) ∧
    (∀ line ∈ dataLines body, isBase64Body line = true) ∧
    IsPublicKey (bufferFrom (dataLines body).flatten)

/-- The blank line is empty and no header has five dashes in a row. -/
def PlainHeaders (block : Str) : Prop :=
  ∃ headers body, blockLines block = pgpBegin :: (headers ++ [] :: body ++ [pgpEnd]) ∧
    ∀ line ∈ headers, isBlankLine line = false ∧ occursIn "-----".toList line = false

section Padding

variable {text line : Str} {raw : Bytes} {xs ys : List Char}

def Padded (text : Str) : Prop :=
  ∃ letters padding, text = letters ++ padding ∧ (∀ c ∈ letters, isBase64Char c = true) ∧
    (∀ c ∈ padding, c = '=') ∧ padding.length ≤ 2

theorem Padded.left (h : Padded (xs ++ ys)) : Padded xs := by
  obtain ⟨letters, padding, hsplit, hletters, hpadding, hlength⟩ := h
  rcases List.append_eq_append_iff.mp hsplit with ⟨rest, rfl, -⟩ | ⟨rest, rfl, rfl⟩
  · exact ⟨xs, [], (List.append_nil _).symm,
      fun c hc => hletters c (List.mem_append_left _ hc), by simp, Nat.zero_le _⟩
  · refine ⟨letters, rest, rfl, hletters, fun c hc => hpadding c (List.mem_append_left _ hc), ?_⟩
    rw [List.length_append] at hlength
    omega

theorem Padded.right (h : Padded (xs ++ ys)) : Padded ys := by
  obtain ⟨letters, padding, hsplit, hletters, hpadding, hlength⟩ := h
  rcases List.append_eq_append_iff.mp hsplit with ⟨rest, rfl, rfl⟩ | ⟨rest, rfl, rfl⟩
  · exact ⟨rest, padding, rfl, fun c hc => hletters c (List.mem_append_right _ hc), hpadding,
      hlength⟩
  · refine ⟨[], ys, rfl, by simp, fun c hc => hpadding c (List.mem_append_right _ hc), ?_⟩
    rw [List.length_append] at hlength
    omega

theorem Padded.of_mem {lines : List Str} (h : Padded lines.flatten) (hline : line ∈ lines) :
    Padded line := by
  induction lines with
  | nil => cases hline
  | cons first lines ih =>
    rw [List.flatten_cons] at h
    rcases List.mem_cons.mp hline with rfl | hrest
    · exact h.left
    · exact ih h.right hrest

theorem Padded.isBase64Body (h : Padded line) (hne : line ≠ []) (hhead : line.head? ≠ some '=') :
    isBase64Body line = true := by
  obtain ⟨letters, padding, rfl, hletters, hpadding, hlength⟩ := h
  obtain ⟨first, letters, rfl⟩ : ∃ first rest, letters = first :: rest := by
    refine List.exists_cons_of_ne_nil ?_
    rintro rfl
    cases padding with
    | nil => exact hne rfl
    | cons c padding => exact hhead (congrArg some (hpadding c List.mem_cons_self))
  have hend : padding.takeWhile isBase64Char = [] ∧ padding.dropWhile isBase64Char = padding := by
    cases padding with
    | nil => exact ⟨rfl, rfl⟩
    | cons c padding =>
      rw [hpadding c List.mem_cons_self]
      exact ⟨rfl, rfl⟩
  have hall : (padding.all fun c => c == '=') = true :=
    List.all_eq_true.mpr fun c hc => beq_iff_eq.mpr (hpadding c hc)
  rw [CiJump.isBase64Body, List.takeWhile_append_of_pos hletters,
    List.dropWhile_append_of_pos hletters, hend.1, hend.2, hall, decide_eq_true hlength]
  rfl

theorem Padded.all_eq (h : Padded line) (hhead : line.head? = some '=') : ∀ c ∈ line, c = '=' := by
  obtain ⟨letters, padding, rfl, hletters, hpadding, -⟩ := h
  cases letters with
  | nil => exact hpadding
  | cons c letters =>
    have hc := hletters c List.mem_cons_self
    rw [Option.some.inj hhead] at hc
    cases hc

theorem bufferOf_of_b64decode {bytes : Bytes} (h : b64decode bytes = some raw) :
    bufferOf (bytes.filterMap b64value) = raw ∧ ∃ letters padding, bytes = letters ++ padding ∧
      (∀ c ∈ letters, (b64value c).isSome = true) ∧ (∀ c ∈ padding, c = b64pad) ∧
        padding.length ≤ 2 := by
  fun_induction b64decode bytes generalizing raw with
  | case1 =>
    cases h
    exact ⟨rfl, [], [], rfl, by simp, by simp, Nat.zero_le _⟩
  | case2 w x =>
    obtain ⟨bytes, hbytes, rfl⟩ := Option.map_eq_some_iff.mp h
    obtain ⟨p, q, r, s, hp, hq, hr, hs, rfl⟩ := b64bytes_eq_some hbytes
    rw [b64value_b64char (by decide), Option.some.injEq] at hr hs
    refine ⟨?_, [w, x], [b64pad, b64pad], rfl, by simp [hp, hq], by simp, le_refl _⟩
    simp only [List.filterMap_cons, List.filterMap_nil, hp, hq, b64value_pad]
    rw [← hr, ← hs]
    rfl
  | case3 w x y hy =>
    obtain ⟨bytes, hbytes, rfl⟩ := Option.map_eq_some_iff.mp h
    obtain ⟨p, q, r, s, hp, hq, hr, hs, rfl⟩ := b64bytes_eq_some hbytes
    rw [b64value_b64char (by decide), Option.some.injEq] at hs
    refine ⟨?_, [w, x, y], [b64pad], rfl, by simp [hp, hq, hr], by simp, Nat.le_succ _⟩
    simp only [List.filterMap_cons, List.filterMap_nil, hp, hq, hr, b64value_pad]
    rw [← hs]
    rfl
  | case4 w x y z hz =>
    obtain ⟨p, q, r, s, hp, hq, hr, hs, rfl⟩ := b64bytes_eq_some h
    refine ⟨?_, [w, x, y, z], [], rfl, by simp [hp, hq, hr, hs], by simp, Nat.zero_le _⟩
    simp only [List.filterMap_cons, List.filterMap_nil, hp, hq, hr, hs]
    exact List.append_nil _
  | case5 w x y z rest hrest ih =>
    obtain ⟨bytes, hbytes, h⟩ := Option.bind_eq_some_iff.mp h
    obtain ⟨more, hmore, h⟩ := Option.bind_eq_some_iff.mp h
    obtain rfl := Option.some.inj h
    obtain ⟨p, q, r, s, hp, hq, hr, hs, rfl⟩ := b64bytes_eq_some hbytes
    obtain ⟨hread, letters, padding, rfl, hletters, hpadding, hlength⟩ := ih hmore
    refine ⟨?_, w :: x :: y :: z :: letters, padding, rfl, ?_, hpadding, hlength⟩
    · simp only [List.filterMap_cons, hp, hq, hr, hs, bufferOf]
      rw [hread]
      rfl
    · simp only [List.forall_mem_cons, hp, hq, hr, hs, Option.isSome_some, true_and]
      exact hletters
  | case6 => cases h

theorem padded_of_b64decode (hchars : ∀ c ∈ text, isBase64Char c = true ∨ c = '=')
    (h : b64decode (asciiBytes text) = some raw) : Padded text := by
  obtain ⟨-, letters, padding, hsplit, hletters, hpadding, hlength⟩ := bufferOf_of_b64decode h
  obtain ⟨front, back, rfl, hfront, hback⟩ := List.map_eq_append_iff.mp hsplit
  refine ⟨front, back, rfl, fun c hc => ?_, fun c hc => ?_, ?_⟩
  · refine (hchars c (List.mem_append_left _ hc)).resolve_right ?_
    rintro rfl
    have hvalue := hletters _ (hfront ▸ List.mem_map_of_mem hc)
    cases hvalue
  · refine (hchars c (List.mem_append_right _ hc)).resolve_left fun hletter => ?_
    have hbyte := hpadding _ (hback ▸ List.mem_map_of_mem hc)
    have hnumber := congrArg UInt8.toNat hbyte
    have hascii := (blobChar_spec (Or.inl hletter)).2.2.1
    rw [UInt8.toNat_ofNat', Nat.mod_eq_of_lt (by omega)] at hnumber
    have heq : c = '=' := Char.toNat_inj.mp hnumber
    rw [heq] at hletter
    cases hletter
  · rw [← List.length_map, hback]
    exact hlength

def values (text : Str) : List Nat := (asciiBytes text).filterMap b64value

theorem values_append (front back : Str) :
    values (front ++ back) = values front ++ values back := by
  rw [values, asciiBytes, List.map_append, List.filterMap_append]
  rfl

theorem values_padding (h : ∀ c ∈ text, c = '=') : values text = [] := by
  refine List.filterMap_eq_nil_iff.mpr fun byte hbyte => ?_
  obtain ⟨c, hc, rfl⟩ := List.mem_map.mp hbyte
  rw [h c hc]
  rfl

theorem bufferFrom_dataLines {data : List Str} (h : Padded data.flatten) :
    bufferFrom (dataLines data).flatten = bufferFrom data.flatten := by
  have hvalues : values (dataLines data).flatten = values data.flatten := by
    induction data with
    | nil => rfl
    | cons line data ih =>
      rw [List.flatten_cons] at h
      rw [dataLines, List.filter_cons, List.flatten_cons, values_append, ← ih h.right]
      split_ifs with hkept
      · rw [List.flatten_cons, values_append]
        rfl
      · have hhead : line.head? = some '=' := by simpa using hkept
        rw [values_padding (h.left.all_eq hhead)]
        rfl
  exact congrArg bufferOf hvalues

end Padding

section Blocks

variable {block accepted : Str} {headers body data : List Str} {checksum : Option Str} {raw : Bytes}

theorem dataLines_checksum (h : ∀ line ∈ checksum, IsChecksum line) :
    dataLines (data ++ checksum.toList) = dataLines data := by
  have hdrop : dataLines checksum.toList = [] := by
    cases checksum with
    | none => rfl
    | some line =>
      obtain ⟨digits, rfl, -⟩ := h line rfl
      rfl
  rw [dataLines, List.filter_append]
  exact (congrArg (dataLines data ++ ·) hdrop).trans (List.append_nil _)

theorem Armoured.ne_nil {blank line : Str} (h : Armoured block headers blank data checksum)
    (hline : line ∈ data ++ checksum.toList) :
    line ≠ [] ∧ ∀ c ∈ line, isBase64Char c = true ∨ c = '=' := by
  rcases List.mem_append.mp hline with hline | hline
  · exact h.data_base64 line hline
  · obtain ⟨digits, rfl, -, hdigits⟩ := h.checksum_form line (Option.mem_toList.mp hline)
    refine ⟨List.cons_ne_nil _ _, List.forall_mem_cons.mpr ⟨Or.inr rfl, fun c hc => ?_⟩⟩
    exact Or.inl (hdigits c hc)

theorem Armoured.split {blank : Str} (h : Armoured block headers blank data checksum)
    {headers' body' : List Str} (hnil : [] ∉ headers')
    (hlines : blockLines block = pgpBegin :: (headers' ++ [] :: body' ++ [pgpEnd])) :
    headers = headers' ∧ blank = [] ∧ data ++ checksum.toList = body' := by
  have hinner := List.append_cancel_right (List.cons.inj (h.lines.symm.trans hlines)).2
  rcases List.append_eq_append_iff.mp hinner with ⟨rest, rfl, hrest⟩ | ⟨rest, rfl, hrest⟩
  · cases rest with
    | nil =>
      obtain ⟨hblank, hbody⟩ := List.cons.inj hrest
      exact ⟨(List.append_nil _).symm, hblank, hbody⟩
    | cons line rest =>
      rw [List.cons_append] at hrest
      have hin : [] ∈ data ++ checksum.toList := by
        rw [(List.cons.inj hrest).2]
        exact List.mem_append_right _ List.mem_cons_self
      exact absurd rfl (h.ne_nil hin).1
  · cases rest with
    | nil =>
      obtain ⟨hblank, hbody⟩ := List.cons.inj hrest
      exact ⟨List.append_nil _, hblank.symm, hbody.symm⟩
    | cons line rest =>
      rw [List.cons_append] at hrest
      have hempty := h.headers_text line (List.mem_append_right _ List.mem_cons_self)
      rw [← (List.cons.inj hrest).1] at hempty
      cases hempty

theorem Armoured.padded {blank : Str} (h : Armoured block headers blank data checksum)
    (hraw : b64decode (asciiBytes data.flatten) = some raw) : Padded data.flatten := by
  refine padded_of_b64decode (fun c hc => ?_) hraw
  obtain ⟨line, hline, hc⟩ := List.mem_flatten.mp hc
  exact (h.data_base64 line hline).2 c hc

theorem Armoured.decoded (h : Armoured block headers [] data checksum)
    (hraw : b64decode (asciiBytes data.flatten) = some raw) :
    bufferFrom (dataLines (data ++ checksum.toList)).flatten = raw ∧
      ∀ line ∈ dataLines (data ++ checksum.toList), isBase64Body line = true := by
  have hpadded := h.padded hraw
  rw [dataLines_checksum h.checksum_form, bufferFrom_dataLines hpadded]
  refine ⟨(bufferOf_of_b64decode hraw).1, fun line hline => ?_⟩
  obtain ⟨hline, hhead⟩ := List.mem_filter.mp hline
  exact (hpadded.of_mem hline).isBase64Body (h.data_base64 line hline).1 (of_decide_eq_true hhead)

theorem inOrder_of (hsigner : IsSignerBlock block) (htaken : TakenAsKey block) : InOrder block := by
  obtain ⟨headers, blank, data, checksum, raw, harmoured, hraw, -⟩ := hsigner
  obtain ⟨headers', body', hlines, hnil, -⟩ := htaken
  obtain ⟨rfl, rfl, rfl⟩ := harmoured.split hnil hlines
  exact ⟨headers, data, checksum, harmoured, by rw [hraw]; rfl⟩

theorem isSignerBlock_of (htaken : TakenAsKey block) (horder : InOrder block) :
    IsSignerBlock block := by
  obtain ⟨headers, data, checksum, harmoured, hsome⟩ := horder
  obtain ⟨headers', body', hlines, hnil, -, -, hkey⟩ := htaken
  obtain ⟨rfl, -, rfl⟩ := harmoured.split hnil hlines
  obtain ⟨raw, hraw⟩ := Option.isSome_iff_exists.mp hsome
  rw [(harmoured.decoded hraw).1] at hkey
  exact ⟨headers, [], data, checksum, raw, harmoured, hraw, hkey⟩

theorem plainHeaders_of (hsigner : IsSignerBlock block) (htaken : TakenAsKey block) :
    PlainHeaders block := by
  obtain ⟨headers, blank, data, checksum, raw, harmoured, -, -⟩ := hsigner
  obtain ⟨headers', body', hlines, hnil, hdashes, -⟩ := htaken
  obtain ⟨rfl, rfl, rfl⟩ := harmoured.split hnil hlines
  exact ⟨headers, _, hlines, fun line hline => ⟨harmoured.headers_text line hline,
    hdashes line (List.mem_append_left _ hline)⟩⟩

theorem no_dashes {line : Str} (h : '-' ∉ line) : occursIn "-----".toList line = false := by
  rw [toList_literal, Bool.eq_false_iff]
  exact fun hoccurs => h ((occursIn_iff.mp hoccurs).subset List.mem_cons_self)

theorem takenAsKey_of (hsigner : IsSignerBlock block) (hplain : PlainHeaders block) :
    TakenAsKey block := by
  obtain ⟨headers, blank, data, checksum, raw, harmoured, hraw, hkey⟩ := hsigner
  obtain ⟨headers', body', hlines, hheaders⟩ := hplain
  have hnil : [] ∉ headers' := fun hin => by
    have hblank := (hheaders [] hin).1
    cases hblank
  obtain ⟨rfl, rfl, rfl⟩ := harmoured.split hnil hlines
  obtain ⟨hdecoded, hbodies⟩ := harmoured.decoded hraw
  refine ⟨headers, _, hlines, hnil, fun line hline => ?_, hbodies, hdecoded ▸ hkey⟩
  rcases List.mem_append.mp hline with hline | hline
  · exact (hheaders line hline).2
  · refine no_dashes fun hdash => ?_
    rcases (harmoured.ne_nil hline).2 '-' hdash with hletter | hpad
    · cases hletter
    · cases hpad

theorem pgpBegin_ne : pgpBegin ≠ pgpEnd := by
  unfold pgpBegin pgpEnd
  simp only [toList_literal]
  decide

theorem framed_iff {lines : List Str} :
    (lines.head? = some pgpBegin ∧ lines.getLast? = some pgpEnd) ↔
      ∃ inner, lines = pgpBegin :: (inner ++ [pgpEnd]) := by
  constructor
  · rintro ⟨hhead, hlast⟩
    obtain ⟨rest, rfl⟩ := List.head?_eq_some_iff.mp hhead
    obtain ⟨front, hfront⟩ := List.getLast?_eq_some_iff.mp hlast
    cases front with
    | nil => exact absurd (List.cons.inj hfront).1 pgpBegin_ne
    | cons line inner =>
      rw [List.cons_append] at hfront
      exact ⟨inner, congrArg (pgpBegin :: ·) (List.cons.inj hfront).2⟩
  · rintro ⟨inner, rfl⟩
    refine ⟨rfl, ?_⟩
    rw [← List.cons_append, List.getLast?_concat]

theorem assertPublicTags_ok_iff {tags : List Nat} : assertPublicTags block tags = .ok accepted ↔
    accepted = block ∧ tags.head? = some pgpPublicKeyTag ∧
      ∀ tag ∈ tags, tag ∈ pgpPublicPacketTags := by
  cases tags with
  | nil =>
    refine ⟨fun h => ?_, fun h => ?_⟩
    · cases h
    · cases h.2.1
  | cons first tags =>
    rw [assertPublicTags, List.head?_cons, Option.some.injEq]
    by_cases hfirst : first = pgpPublicKeyTag
    · rw [if_neg (not_not.mpr hfirst)]
      cases hstray : (first :: tags).find? fun tag => decide (tag ∉ pgpPublicPacketTags) with
      | none =>
        have hall : ∀ tag ∈ first :: tags, tag ∈ pgpPublicPacketTags := fun tag htag => by
          simpa using List.find?_eq_none.mp hstray tag htag
        exact ⟨fun h => ⟨(Except.ok.inj h).symm, hfirst, hall⟩, fun h => congrArg _ h.1.symm⟩
      | some stray =>
        refine ⟨fun h => ?_, fun h => ?_⟩
        · cases h
        · have hnot := List.find?_some hstray
          exact absurd (h.2.2 stray (List.mem_of_find?_eq_some hstray)) (of_decide_eq_true hnot)
    · rw [if_pos hfirst]
      refine ⟨fun h => ?_, fun h => absurd h.2.1 hfirst⟩
      cases h

theorem not_isPublicKey_nil : ¬IsPublicKey [] := by
  rintro ⟨tags, hpackets, hfirst, -⟩
  rw [← pgpPacketTags_iff, pgpPacketTags] at hpackets
  obtain rfl := Except.ok.inj hpackets
  cases hfirst

theorem taken_iff {inner : List Str} (hframe : blockLines block = pgpBegin :: (inner ++ [pgpEnd])) :
    TakenAsKey block ↔ inner.any (occursIn "-----".toList) = false ∧ [] ∈ inner ∧
      (∀ line ∈ dataLines (inner.drop (inner.idxOf [] + 1)), isBase64Body line = true) ∧
        IsPublicKey (bufferFrom (dataLines (inner.drop (inner.idxOf [] + 1))).flatten) := by
  have hplace : ∀ headers body : List Str, [] ∉ headers →
      (headers ++ [] :: body).drop ((headers ++ [] :: body).idxOf [] + 1) = body := by
    intro headers body hnil
    rw [List.idxOf_append_of_notMem hnil, List.idxOf_cons_self, Nat.add_zero, List.drop_append,
      List.drop_of_length_le (Nat.le_succ _)]
    simp
  have hempty : occursIn "-----".toList [] = false := by
    rw [toList_literal]
    rfl
  constructor
  · rintro ⟨headers, body, hlines, hnil, hdashes, hbodies, hkey⟩
    obtain rfl := List.append_cancel_right (List.cons.inj (hframe.symm.trans hlines)).2
    rw [hplace headers body hnil]
    refine ⟨?_, List.mem_append_right _ List.mem_cons_self, hbodies, hkey⟩
    simp only [List.any_eq_false, List.mem_append, List.mem_cons]
    rintro line (hline | rfl | hline)
    · exact Bool.eq_false_iff.mp (hdashes line (List.mem_append_left _ hline))
    · exact Bool.eq_false_iff.mp hempty
    · exact Bool.eq_false_iff.mp (hdashes line (List.mem_append_right _ hline))
  · rintro ⟨hdashes, hin, hbodies, hkey⟩
    obtain ⟨headers, body, rfl, hnil⟩ := List.eq_append_cons_of_mem hin
    rw [hplace headers body hnil] at hbodies hkey
    refine ⟨headers, body, hframe, hnil, fun line hline => ?_, hbodies, hkey⟩
    refine Bool.eq_false_iff.mpr (List.any_eq_false.mp hdashes line ?_)
    rcases List.mem_append.mp hline with hline | hline
    · exact List.mem_append_left _ hline
    · exact List.mem_append_right _ (List.mem_cons_of_mem _ hline)

theorem assertPgpPublicKeyBlock_ok_iff :
    assertPgpPublicKeyBlock block = .ok accepted ↔ accepted = block ∧ TakenAsKey block := by
  rw [assertPgpPublicKeyBlock]
  by_cases hframe : (blockLines block).head? = some pgpBegin ∧
      (blockLines block).getLast? = some pgpEnd
  · obtain ⟨inner, hinner⟩ := framed_iff.mp hframe
    rw [if_neg (by rwa [not_or, not_ne_iff, not_ne_iff]), taken_iff hinner, hinner, List.tail_cons,
      List.dropLast_concat]
    by_cases hdashes : inner.any (occursIn "-----".toList) = true
    · simp only [if_pos hdashes]
      refine ⟨fun h => ?_, fun h => ?_⟩
      · cases h
      · rw [h.2.1] at hdashes
        cases hdashes
    simp only [if_neg hdashes]
    by_cases hblank : [] ∈ inner
    swap
    · simp only [if_pos hblank]
      refine ⟨fun h => ?_, fun h => absurd h.2.2.1 hblank⟩
      cases h
    simp only [if_neg (not_not.mpr hblank)]
    generalize dataLines (inner.drop (inner.idxOf [] + 1)) = data
    by_cases hdata : data = [] ∨ ¬data.all isBase64Body = true
    · simp only [if_pos hdata]
      refine ⟨fun h => ?_, fun h => ?_⟩
      · cases h
      · obtain ⟨-, -, -, hbodies, hkey⟩ := h
        rcases hdata with rfl | hnot
        · exact absurd hkey not_isPublicKey_nil
        · exact absurd (List.all_eq_true.mpr hbodies) hnot
    · simp only [if_neg hdata, Effects.bind_eq_ok_iff, assertPublicTags_ok_iff, pgpPacketTags_iff]
      rw [not_or, not_not, List.all_eq_true] at hdata
      constructor
      · rintro ⟨tags, hpackets, rfl, hfirst, hall⟩
        exact ⟨rfl, Bool.eq_false_iff.mpr hdashes, hblank, hdata.2, tags, hpackets, hfirst, hall⟩
      · rintro ⟨rfl, -, -, -, tags, hpackets, hfirst, hall⟩
        exact ⟨tags, hpackets, rfl, hfirst, hall⟩
  · rw [if_pos (by rwa [not_and_or] at hframe)]
    refine ⟨fun h => ?_, fun h => ?_⟩
    · cases h
    · obtain ⟨-, headers, body, hlines, -⟩ := h
      exact absurd (framed_iff.mpr ⟨_, hlines⟩) hframe

/-- The lines are in order wherever the program takes them for a public key, and a signer block has
plain headers. -/
structure InGoodOrder (block : Str) : Prop where
  taken : TakenAsKey block → InOrder block
  headers : IsSignerBlock block → PlainHeaders block

/-- A block with two lines that begin with `=`. -/
def twoChecksums : Str := pgpBegin ++ "\n\nxgEA\n=AAAA\n=AAAA\n".toList ++ pgpEnd

theorem blockLines_twoChecksums : blockLines twoChecksums =
    pgpBegin :: ([] ++ [] :: ["xgEA".toList, "=AAAA".toList, "=AAAA".toList] ++ [pgpEnd]) := by
  unfold twoChecksums pgpBegin pgpEnd
  simp only [toList_literal]
  rfl

theorem packets_xgEA : Packets (bufferFrom "xgEA".toList) [pgpPublicKeyTag] := by
  have hbytes : bufferFrom "xgEA".toList = [198, 1, 0] := by
    rw [toList_literal]
    decide
  have hheader : Header [UInt8.ofNat (192 + pgpPublicKeyTag), 1] pgpPublicKeyTag
      (1 : UInt8).toNat := .one 1 (by decide) (by decide)
  have hpackets : Packets ([UInt8.ofNat (192 + pgpPublicKeyTag), 1] ++ ([0] ++ []))
      [pgpPublicKeyTag] := .cons hheader .nil
  rw [hbytes]
  exact hpackets

end Blocks

end SharedInfra.HetznerHost
