import SharedInfra.Dns.MasterFile
import SharedInfra.Mail.SendingDomainSafety

/-!
# The printed zone of a sending domain

`format_zone` of `provision_sending_domain.py`: the records that a key needs, as lines of a zone
file.  For names that the validators accept the lines are read back as the records that were meant,
unless a name ends in a line break, which the patterns let through, or the name of a record is
longer than a name may be (`printsMeant_iff`).
-/

namespace SharedInfra.Mail
namespace SendingDomain

open Python Dns.MasterFile

/-- The pieces of `_txt_strings`. -/
def txtChunks (value : Str) : List Str :=
  let chunks := (List.range ((value.length + 254) / 255)).map fun i =>
    (value.drop (i * 255)).take 255
  if chunks = [] then [[]] else chunks

def txtStrings (value : Str) : Str :=
  joinWith [' '] ((txtChunks value).map fun chunk => '"' :: chunk ++ ['"'])

def zoneLine (record : Record) : Str :=
  record.name ++ ". 3600 IN ".toList ++ record.recordType ++ ' ' ::
    if record.recordType = "TXT".toList then txtStrings record.value else record.value

def formatZone (records : List Record) : Str := joinWith ['\n'] (records.map zoneLine)

structure MailHost where
  name : Str
  labels : ∀ label ∈ splitOnChar '.' name, isLabel label = true
  short : name.length ≤ 253

/-- `MAIL_HOST` where the environment does not say another one. -/
def defaultMailHost : MailHost := ⟨"mx1.branchleft.co.uk".toList, by decide, by decide⟩

section Statements

structure GoodLabel (label : Str) : Prop where
  pos : 0 < label.length
  short : label.length ≤ 63
  letters : ∀ c ∈ label, c.isLower = true ∨ c.isDigit = true ∨ c = '-'
  head : label.head? ≠ some '-'
  last : label.getLast? ≠ some '-'

structure GoodDomain (name : Str) : Prop where
  lower : name.map Char.toLower = name
  short : name.length ≤ 253
  labels : ∀ label ∈ splitOnChar '.' name, GoodLabel label
  last : ∀ label ∈ (splitOnChar '.' name).getLast?, ∀ c ∈ label, c.isLower = true

def GoodSelector (selector : Str) : Prop := ∀ label ∈ splitOnChar '.' selector, GoodLabel label

def Means (record : Record) (resource : Resource) : Prop :=
  resource.owner = splitOnChar '.' record.name ∧
    match resource.data with
    | .txt strings => record.recordType = "TXT".toList ∧ strings.flatten = record.value ∧
        ∀ string ∈ strings, string.length ≤ 255
    | .mx preference exchange => record.recordType = "MX".toList ∧
        record.value = decimal preference ++ ' ' :: joinWith ['.'] exchange ++ ['.']
    | .named _ _ => False

def isBase64 (c : Char) : Bool :=
  c.isUpper || c.isLower || c.isDigit || c == '+' || c == '/' || c == '='

variable (name selector : Str) (key : Key) (host : MailHost) (dkimOnly : Bool)

/-- What the script is given: names that the validators accept and a key of the server. -/
structure Accepted : Prop where
  names : validateDomain name = .ok name ∧ validateSelector selector = .ok selector
  publicKey : ∀ publicKey, key.publicKey = some publicKey → ∀ c ∈ publicKey, isBase64 c = true

structure PrintsMeant : Prop where
  names : GoodDomain name ∧ GoodSelector selector
  zone : ∀ records, dnsRecords name selector key host.name dkimOnly = .ok records →
    ∃ resources, readZone (formatZone records) = some resources ∧
      List.Forall₂ Means records resources

def HasPublicKey : Prop :=
  (dkimKeyTags.lookup (key.keyType.getD [])).isSome = true ∧
    ∃ publicKey, key.publicKey = some publicKey ∧ publicKey ≠ []

/-- When the zone is right. -/
structure PrintsRightly : Prop where
  names : '\n' ∉ name ∧ '\n' ∉ selector
  dkim : HasPublicKey key → selector.length + name.length ≤ 241
  dmarc : HasPublicKey key → dkimOnly = false → name.length ≤ 246

end Statements

section Chunks

variable {value : Str}

theorem flatten_pieces (value : Str) (n k : Nat) :
    ((List.range k).map fun i => (value.drop (i * n)).take n).flatten = value.take (k * n) := by
  induction k with
  | zero => simp
  | succ k ih =>
    rw [List.range_succ, List.map_append, List.flatten_append, ih, List.map_singleton,
      List.flatten_singleton, Nat.succ_mul, List.take_add]

theorem flatten_txtChunks (value : Str) : (txtChunks value).flatten = value := by
  have hall := flatten_pieces value 255 ((value.length + 254) / 255)
  rw [List.take_of_length_le (by omega)] at hall
  rw [txtChunks]
  split_ifs with hnone
  · rw [hnone] at hall
    rw [← hall]
    rfl
  · exact hall

theorem txtChunks_ne_nil (value : Str) : txtChunks value ≠ [] := by
  rw [txtChunks]
  split_ifs with hnone
  · exact List.cons_ne_nil _ _
  · exact hnone

theorem length_of_mem_txtChunks {chunk : Str} (h : chunk ∈ txtChunks value) :
    chunk.length ≤ 255 := by
  rw [txtChunks] at h
  split_ifs at h
  · rw [List.mem_singleton.mp h]
    exact Nat.zero_le _
  · obtain ⟨i, -, rfl⟩ := List.mem_map.mp h
    exact List.length_take_le _ _

theorem mem_of_mem_txtChunks {chunk : Str} {c : Char} (h : chunk ∈ txtChunks value)
    (hc : c ∈ chunk) : c ∈ value := by
  rw [← flatten_txtChunks value]
  exact List.mem_flatten.mpr ⟨chunk, h, hc⟩

end Chunks

section Lines

variable {name value : Str} {record : Record} {host : MailHost} {context : Context}

/-- A character that is read in an item as it is written. -/
def isItemChar (c : Char) : Bool :=
  c.isUpper || c.isLower || c.isDigit || c == '-' || c == '.' || c == '_'

def PlainName (name : Str) : Prop :=
  (∀ c ∈ name, isItemChar c = true) ∧
    ∀ label ∈ splitOnChar '.' name, 0 < label.length ∧ label.length ≤ 63

/-- The records that the script writes. -/
inductive Printable (host : MailHost) : Record → Prop
  | txt {name value : Str} (hname : PlainName name)
      (hvalue : ∀ c ∈ value, c.toNat < 128 ∧ c ≠ '"' ∧ c ≠ '\\') :
      Printable host ⟨name, "TXT".toList, value⟩
  | mx {name : Str} (hname : PlainName name) :
      Printable host ⟨name, "MX".toList, "10 ".toList ++ host.name ++ ".".toList⟩

/-- The tokens of a line. -/
def lineOf (host : MailHost) (record : Record) : List Spelling :=
  .word (record.name ++ ['.']) :: .word "3600".toList :: .word "IN".toList ::
    .word record.recordType ::
      if record.recordType = "TXT".toList then (txtChunks record.value).map Spelling.quoted
      else [.word "10".toList, .word (host.name ++ ['.'])]

def resourceOf (host : MailHost) (record : Record) : Resource :=
  ⟨splitOnChar '.' record.name, 3600, "IN".toList,
    if record.recordType = "TXT".toList then .txt (txtChunks record.value)
    else .mx 10 (splitOnChar '.' host.name)⟩

theorem joinWith_append_of_ne_nil (sep : Str) {words : List Str} (w : Str) (hne : words ≠ []) :
    joinWith sep (w :: words) = w ++ sep ++ joinWith sep words := by
  obtain ⟨v, words, rfl⟩ := List.exists_cons_of_ne_nil hne
  exact joinWith_cons_cons sep w v words

theorem zoneLine_eq (h : Printable host record) : zoneLine record = lineText (lineOf host record) := by
  cases h with
  | @txt name value hname hvalue =>
    have hne : ((txtChunks value).map Spelling.quoted).map Spelling.text ≠ [] := by
      simp [txtChunks_ne_nil]
    rw [lineText, lineOf, if_pos rfl, zoneLine, if_pos rfl]
    simp only [List.map_cons]
    rw [joinWith_append_of_ne_nil _ _ (List.cons_ne_nil _ _),
      joinWith_append_of_ne_nil _ _ (List.cons_ne_nil _ _),
      joinWith_append_of_ne_nil _ _ (List.cons_ne_nil _ _),
      joinWith_append_of_ne_nil _ _ hne]
    simp [Spelling.text, txtStrings, Function.comp_def]
  | @mx name hname =>
    have htype : "MX".toList ≠ "TXT".toList := by decide
    rw [lineText, lineOf, if_neg htype, zoneLine, if_neg htype]
    simp [Spelling.text, joinWith]

/-- The characters that have a meaning of their own between tokens or in them. -/
def markChars : Str := [' ', '\t', '\n', ';', '(', ')', '"', '\\']

theorem plain_of_not_mark {c : Char} (hascii : c.toNat < 128) (h : c ∉ markChars) :
    c.toNat < 128 ∧ endsItem c = false ∧ c ≠ '"' ∧ c ≠ '\\' := by
  simp only [markChars, List.mem_cons, List.not_mem_nil, or_false, not_or] at h
  obtain ⟨hspace, htab, hnewline, hcomment, hopen, hclose, hquote, hslash⟩ := h
  refine ⟨hascii, ?_, hquote, hslash⟩
  simp [endsItem, isBlank, hspace, htab, hnewline, hcomment, hopen, hclose]

theorem not_mark_of_toNat {c : Char} (h : ∀ d ∈ markChars, c.toNat ≠ d.toNat) : c ∉ markChars :=
  fun hmem => h c hmem rfl

theorem marks_toNat : ∀ d ∈ markChars, d.toNat < 48 ∨ (57 < d.toNat ∧ d.toNat < 65) ∨
    (90 < d.toNat ∧ d.toNat < 97) := by
  intro d hd
  simp only [markChars, List.mem_cons, List.not_mem_nil, or_false] at hd
  rcases hd with rfl | rfl | rfl | rfl | rfl | rfl | rfl | rfl
  all_goals decide

theorem plain_word {w : Str} (hne : w ≠ []) (h : ∀ c ∈ w, isItemChar c = true) :
    (Spelling.word w).Plain := by
  have hrange : ∀ c : Char, c.toNat < 128 → (48 ≤ c.toNat ∧ c.toNat ≤ 57 ∨
      65 ≤ c.toNat ∧ c.toNat ≤ 90 ∨ 97 ≤ c.toNat) → c ∉ markChars := by
    intro c _ hc
    refine not_mark_of_toNat fun d hd => ?_
    have hd := marks_toNat d hd
    omega
  refine ⟨hne, fun c hc => ?_⟩
  have hitem := h c hc
  simp only [isItemChar, Bool.or_eq_true, beq_iff_eq, or_assoc] at hitem
  rcases hitem with h | h | h | rfl | rfl | rfl
  · obtain ⟨hlo, hhi⟩ := toNat_of_isUpper h
    exact plain_of_not_mark (by omega) (hrange c (by omega) (by omega))
  · obtain ⟨hlo, hhi⟩ := toNat_of_isLower h
    exact plain_of_not_mark (by omega) (hrange c (by omega) (by omega))
  · obtain ⟨hlo, hhi⟩ := toNat_of_isDigit h
    exact plain_of_not_mark (by omega) (hrange c (by omega) (by omega))
  · exact plain_of_not_mark (by decide) (by decide)
  · exact plain_of_not_mark (by decide) (by decide)
  · exact plain_of_not_mark (by decide) (by decide)

theorem plain_absolute (h : PlainName name) : (Spelling.word (name ++ ['.'])).Plain := by
  refine plain_word (by simp) fun c hc => ?_
  rcases List.mem_append.mp hc with hc | hc
  · exact h.1 c hc
  · rw [List.mem_singleton.mp hc]
    rfl

theorem isLabel_spec {label : Str} : isLabel label = true ↔ GoodLabel label := by
  rw [isLabel]
  simp only [Bool.and_eq_true, Bool.not_eq_true', decide_eq_true_eq, bne_iff_ne, ne_eq,
    List.all_eq_true, isLabelLetter, Bool.or_eq_true, beq_iff_eq, List.isEmpty_eq_false_iff,
    or_assoc]
  constructor
  · rintro ⟨⟨⟨⟨hne, hshort⟩, hletters⟩, hhead⟩, hlast⟩
    exact ⟨List.length_pos_iff.mpr hne, hshort, hletters, hhead, hlast⟩
  · rintro ⟨hpos, hshort, hletters, hhead, hlast⟩
    exact ⟨⟨⟨⟨List.length_pos_iff.mp hpos, hshort⟩, hletters⟩, hhead⟩, hlast⟩

theorem plainName_of_labels (h : ∀ label ∈ splitOnChar '.' name, GoodLabel label) :
    PlainName name := by
  have hletters : ∀ label ∈ splitOnChar '.' name, ∀ c ∈ label, isItemChar c = true := by
    intro label hlabel c hc
    rcases (h label hlabel).letters c hc with hc | hc | rfl
    · simp [isItemChar, hc]
    · simp [isItemChar, hc]
    · rfl
  have hdot : isItemChar '.' = true := rfl
  exact ⟨chars_of_pieces hdot hletters, fun label hlabel =>
    ⟨(h label hlabel).pos, (h label hlabel).short⟩⟩

theorem plainName_host (host : MailHost) : PlainName host.name :=
  plainName_of_labels fun label hlabel => isLabel_spec.mp (host.labels label hlabel)

theorem plain_lineOf (h : Printable host record) : ∀ sp ∈ lineOf host record, sp.Plain := by
  have hnumber : (Spelling.word "3600".toList).Plain :=
    plain_word (by decide) (List.all_eq_true.mp (by decide))
  have hclass : (Spelling.word "IN".toList).Plain :=
    plain_word (by decide) (List.all_eq_true.mp (by decide))
  cases h with
  | @txt name value hname hvalue =>
    have htype : (Spelling.word "TXT".toList).Plain :=
      plain_word (by decide) (List.all_eq_true.mp (by decide))
    have hchunks : ∀ sp ∈ (txtChunks value).map Spelling.quoted, sp.Plain := by
      intro sp hsp
      obtain ⟨chunk, hchunk, rfl⟩ := List.mem_map.mp hsp
      exact fun c hc => hvalue c (mem_of_mem_txtChunks hchunk hc)
    rw [lineOf, if_pos rfl]
    intro sp hsp
    simp only [List.mem_cons] at hsp
    rcases hsp with rfl | rfl | rfl | rfl | hsp
    · exact plain_absolute hname
    · exact hnumber
    · exact hclass
    · exact htype
    · exact hchunks sp hsp
  | @mx name hname =>
    have htype : (Spelling.word "MX".toList).Plain :=
      plain_word (by decide) (List.all_eq_true.mp (by decide))
    have hpreference : (Spelling.word "10".toList).Plain :=
      plain_word (by decide) (List.all_eq_true.mp (by decide))
    have hmx : "MX".toList ≠ "TXT".toList := by decide
    rw [lineOf, if_neg hmx]
    intro sp hsp
    simp only [List.mem_cons, List.not_mem_nil, or_false] at hsp
    rcases hsp with rfl | rfl | rfl | rfl | rfl | rfl
    · exact plain_absolute hname
    · exact hnumber
    · exact hclass
    · exact htype
    · exact hpreference
    · exact plain_absolute (plainName_host host)

theorem ne_nil_of_plainName (h : PlainName name) : name ≠ [] := by
  rintro rfl
  exact absurd (h.2 [] List.mem_cons_self).1 (Nat.lt_irrefl 0)

theorem nameOf_plainName (h : PlainName name) (origin : Option Name) :
    nameOf origin (plainLetters (name ++ ['.'])) =
      if name.length ≤ 253 then some (splitOnChar '.' name) else none := by
  rw [nameOf_absolute (ne_nil_of_plainName h), Option.filter_some]
  have hname := isName_splitOnChar name
  by_cases hshort : name.length ≤ 253
  · rw [if_pos hshort, if_pos (hname.mpr ⟨h.2, hshort⟩)]
  · rw [if_neg hshort, if_neg fun hbad => hshort (hname.mp hbad).2]

theorem mapM_stringOf {chunks : List Str} (h : ∀ chunk ∈ chunks, chunk.length ≤ 255) :
    (chunks.map fun chunk => (Spelling.quoted chunk).token).mapM stringOf = some chunks := by
  induction chunks with
  | nil => rfl
  | cons chunk chunks ih =>
    have hchunk := h chunk List.mem_cons_self
    have hstring : stringOf (Spelling.quoted chunk).token = some chunk := by
      rw [stringOf, Spelling.token, if_pos (by simpa [plainLetters] using hchunk)]
      simp [plainLetters, Function.comp_def]
    rw [List.map_cons, List.mapM_cons, hstring, ih fun c hc => h c (List.mem_cons_of_mem _ hc)]
    rfl

theorem readEntry_line (h : Printable host record) :
    readEntry context (lineEntry (lineOf host record)) =
      if record.name.length ≤ 253 then
        some (⟨context.origin, some (splitOnChar '.' record.name), some 3600, some "IN".toList⟩,
          [resourceOf host record])
      else none := by
  have hword : ∀ w : Str, (Spelling.word w).token.word = some w := by
    intro w
    rw [Token.word, if_pos]
    · simp [Spelling.token, plainLetters, Function.comp_def]
    · simp [Spelling.token, plainLetters]
  have hnumber : ∀ w : Str, w ≠ [] → (∀ c ∈ w, c.isDigit = true) →
      numberOf (Spelling.word w).token = some (octetOf w) := by
    intro w hne hdigits
    rw [numberOf, hword, Option.bind_some, if_pos ⟨hne, hdigits⟩]
  have hcontrol : ∀ (name control : Str), control.getLast? ≠ some '.' →
      (Spelling.word (name ++ ['.'])).token.word ≠ some control := by
    intro name control hcontrol hbad
    rw [hword] at hbad
    rw [← Option.some.inj hbad, List.getLast?_concat] at hcontrol
    exact hcontrol rfl
  have hentry : ∀ rest, readEntry context (lineEntry (.word (record.name ++ ['.']) :: rest)) =
      (nameOf context.origin (plainLetters (record.name ++ ['.']))).bind fun owner =>
        recordOf context owner (rest.map Spelling.token) := by
    intro rest
    rw [readEntry, lineEntry]
    simp only [List.map_cons, Bool.false_eq_true, if_false]
    rw [if_neg (hcontrol _ _ (by decide)), if_neg (hcontrol _ _ (by decide))]
    rfl
  have hrecord : ∀ owner type args data, dataOf context.origin (type.map Char.toUpper)
      (args.map Spelling.token) = some data →
      recordOf context owner ((.word "3600".toList :: .word "IN".toList :: .word type ::
        args).map Spelling.token) = some (⟨context.origin, some owner, some 3600,
          some "IN".toList⟩, [⟨owner, 3600, "IN".toList, data⟩]) := by
    intro owner type args data hdata
    have hhead : headOf ((.word "3600".toList :: .word "IN".toList :: .word type ::
        args).map Spelling.token) = (some 3600, some "IN".toList,
          (Spelling.word type).token :: args.map Spelling.token) := by
      rw [headOf, List.map_cons, List.map_cons, List.map_cons, leading, hnumber "3600".toList
        (by decide) (List.all_eq_true.mp (by decide))]
      dsimp only
      rw [leading, classOf, hword]
      rfl
    rw [recordOf, hhead]
    simp only [Option.some_or, Option.bind_eq_bind, Option.bind_some]
    rw [hword, Option.bind_some, hdata]
    rfl
  have hname : PlainName record.name := by
    cases h with
    | txt hname hvalue => exact hname
    | mx hname => exact hname
  rw [lineOf, hentry, nameOf_plainName hname]
  by_cases hshort : record.name.length ≤ 253
  · rw [if_pos hshort, if_pos hshort, Option.bind_some]
    cases h with
    | @txt name value hname hvalue =>
      refine hrecord _ _ _ _ ?_
      rw [if_pos rfl]
      show dataOf context.origin "TXT".toList
        (((txtChunks value).map Spelling.quoted).map Spelling.token) = _
      rw [dataOf_txt (by simp [txtChunks_ne_nil]), List.map_map]
      have hstrings := mapM_stringOf fun chunk (h : chunk ∈ txtChunks value) =>
        length_of_mem_txtChunks h
      exact congrArg (Option.map Rdata.txt) hstrings
    | @mx name hname =>
      have hmx : "MX".toList ≠ "TXT".toList := by decide
      refine hrecord _ _ _ _ ?_
      rw [if_neg hmx]
      show dataOf context.origin "MX".toList [(Spelling.word "10".toList).token,
        (Spelling.word (host.name ++ ['.'])).token] = _
      rw [dataOf, if_neg hmx, if_pos rfl]
      dsimp only
      rw [hnumber "10".toList (by decide) (List.all_eq_true.mp (by decide))]
      show (nameOf context.origin (plainLetters (host.name ++ ['.']))).bind _ = _
      rw [nameOf_plainName (plainName_host host), if_pos host.short]
      rfl
  · rw [if_neg hshort, if_neg hshort]
    rfl

end Lines

section Zone

variable {name selector : Str} {key : Key} {host : MailHost} {dkimOnly : Bool}
  {records : List Record} {record : Record}

theorem readEntries_lines (context : Context) (h : ∀ record ∈ records, Printable host record) :
    readEntries context (records.map fun record => lineEntry (lineOf host record)) =
      if ∀ record ∈ records, record.name.length ≤ 253 then some (records.map (resourceOf host))
      else none := by
  induction records generalizing context with
  | nil => rfl
  | cons record records ih =>
    rw [List.map_cons, readEntries, readEntry_line (h record List.mem_cons_self)]
    by_cases hshort : record.name.length ≤ 253
    · rw [if_pos hshort]
      simp only [Option.bind_eq_bind, Option.bind_some]
      rw [ih _ fun r hr => h r (List.mem_cons_of_mem _ hr)]
      by_cases hrest : ∀ record ∈ records, record.name.length ≤ 253
      · have hall : ∀ r ∈ record :: records, r.name.length ≤ 253 := by
          intro r hr
          rcases List.mem_cons.mp hr with rfl | hr
          · exact hshort
          · exact hrest r hr
        rw [if_pos hrest, if_pos hall]
        rfl
      · rw [if_neg hrest, if_neg fun hall => hrest fun r hr => hall r (List.mem_cons_of_mem _ hr)]
        rfl
    · rw [if_neg hshort, if_neg fun hall => hshort (hall record List.mem_cons_self)]
      rfl

theorem readZone_formatZone (h : ∀ record ∈ records, Printable host record) (hne : records ≠ []) :
    readZone (formatZone records) =
      if ∀ record ∈ records, record.name.length ≤ 253 then some (records.map (resourceOf host))
      else none := by
  have htext : formatZone records = joinWith ['\n'] ((records.map (lineOf host)).map lineText) := by
    rw [formatZone, List.map_map]
    exact congrArg _ (List.map_congr_left fun record hrecord => zoneLine_eq (h record hrecord))
  have hlines : ∀ line ∈ records.map (lineOf host), line ≠ [] ∧ ∀ sp ∈ line, sp.Plain := by
    intro line hline
    obtain ⟨record, hrecord, rfl⟩ := List.mem_map.mp hline
    exact ⟨List.cons_ne_nil _ _, plain_lineOf (h record hrecord)⟩
  rw [htext, readZone, entriesOf_lines hlines (by simpa using hne), Option.bind_some, List.map_map]
  exact readEntries_lines _ h

theorem means_resourceOf (h : Printable host record) : Means record (resourceOf host record) := by
  refine ⟨rfl, ?_⟩
  cases h with
  | @txt name value hname hvalue =>
    rw [resourceOf, if_pos rfl]
    exact ⟨rfl, flatten_txtChunks value, fun chunk => length_of_mem_txtChunks⟩
  | @mx name hname =>
    have hmx : "MX".toList ≠ "TXT".toList := by decide
    rw [resourceOf, if_neg hmx]
    refine ⟨rfl, ?_⟩
    dsimp only
    rw [joinWith_splitOnChar]
    rfl

theorem dnsRecords_ok_iff : dnsRecords name selector key host.name dkimOnly = .ok records ↔
    ∃ tag publicKey, dkimKeyTags.lookup (key.keyType.getD []) = some tag ∧
      key.publicKey = some publicKey ∧ publicKey ≠ [] ∧
      records = dkimRecord name selector tag publicKey ::
        if dkimOnly then [] else mailRecords name host.name := by
  rw [dnsRecords]
  cases htag : dkimKeyTags.lookup (key.keyType.getD []) with
  | none => simp
  | some tag =>
    cases hkey : key.publicKey with
    | none => simp
    | some publicKey =>
      cases publicKey with
      | nil => simp
      | cons c rest => simp [eq_comm]

theorem records_ne_nil (h : dnsRecords name selector key host.name dkimOnly = .ok records) :
    records ≠ [] := by
  obtain ⟨tag, publicKey, -, -, -, rfl⟩ := dnsRecords_ok_iff.mp h
  exact List.cons_ne_nil _ _

theorem exists_records_iff : (∃ records,
    dnsRecords name selector key host.name dkimOnly = .ok records) ↔ HasPublicKey key := by
  constructor
  · rintro ⟨records, hrecords⟩
    obtain ⟨tag, publicKey, htag, hkey, hne, -⟩ := dnsRecords_ok_iff.mp hrecords
    exact ⟨by rw [htag]; rfl, publicKey, hkey, hne⟩
  · rintro ⟨htag, publicKey, hkey, hne⟩
    obtain ⟨tag, htag⟩ := Option.isSome_iff_exists.mp htag
    exact ⟨_, dnsRecords_ok_iff.mpr ⟨tag, publicKey, htag, hkey, hne, rfl⟩⟩

theorem newline_not_mem_of_labels (h : ∀ label ∈ splitOnChar '.' name, GoodLabel label) :
    '\n' ∉ name := by
  intro hmem
  have hitem := (plainName_of_labels h).1 '\n' hmem
  revert hitem
  decide

theorem beforeEnd_of_not_mem (h : '\n' ∉ name) : beforeEnd name = name := by
  rw [beforeEnd, if_neg fun hlast => h (List.mem_of_getLast? hlast)]

theorem goodSelector_iff (h : validateSelector selector = .ok selector) :
    GoodSelector selector ↔ '\n' ∉ selector := by
  refine ⟨newline_not_mem_of_labels, fun hnewline => ?_⟩
  rw [validateSelector, isSelector, beforeEnd_of_not_mem hnewline] at h
  split_ifs at h with hall
  exact fun label hlabel => isLabel_spec.mp (List.all_eq_true.mp hall label hlabel)

theorem goodDomain_iff (h : validateDomain name = .ok name) : GoodDomain name ↔ '\n' ∉ name := by
  refine ⟨fun hgood => newline_not_mem_of_labels hgood.labels, fun hnewline => ?_⟩
  rw [validateDomain, isDomain, beforeEnd_of_not_mem hnewline] at h
  split_ifs at h with hbad
  simp only [not_or, not_not, Bool.not_eq_false, Nat.not_lt] at hbad
  obtain ⟨hlower, hdomain, hshort⟩ := hbad
  simp only [Bool.and_eq_true, decide_eq_true_eq, List.all_eq_true] at hdomain
  obtain ⟨⟨⟨⟨-, hlabels⟩, hletters⟩, htwo⟩, hlong⟩ := hdomain
  obtain ⟨labels, last, hsplit⟩ : ∃ labels last, splitOnChar '.' name = labels ++ [last] :=
    ⟨_, _, (List.dropLast_append_getLast (splitOnChar_ne_nil '.' name)).symm⟩
  have hgetLast : (splitOnChar '.' name).getLastD [] = last := by
    rw [hsplit]
    simp
  rw [hgetLast] at hletters htwo hlong
  rw [hsplit, List.dropLast_concat] at hlabels
  refine ⟨hlower.symm, hshort, fun label hlabel => ?_, fun label hlabel c hc => ?_⟩
  · rw [hsplit] at hlabel
    rcases List.mem_append.mp hlabel with hlabel | hlabel
    · exact isLabel_spec.mp (hlabels label hlabel)
    · rw [List.mem_singleton.mp hlabel]
      have hhyphen : '-' ∉ last := fun hmem => absurd (hletters '-' hmem) (by decide)
      exact ⟨by omega, hlong, fun c hc => Or.inl (hletters c hc),
        fun hhead => hhyphen (List.mem_of_mem_head? hhead),
        fun hlast => hhyphen (List.mem_of_getLast? hlast)⟩
  · rw [hsplit, List.getLast?_concat] at hlabel
    cases hlabel
    exact hletters c hc

/-- A character of a value. -/
def isValueChar (c : Char) : Bool :=
  isItemChar c || c == ' ' || c == ';' || c == '=' || c == '+' || c == '/'

theorem plain_valueChar {c : Char} (h : isValueChar c = true) :
    c.toNat < 128 ∧ c ≠ '"' ∧ c ≠ '\\' := by
  simp only [isValueChar, Bool.or_eq_true, beq_iff_eq, or_assoc] at h
  rcases h with h | rfl | rfl | rfl | rfl | rfl
  · obtain ⟨hascii, -, hquote, hslash⟩ :=
      (plain_word (List.cons_ne_nil c []) (by simpa using h)).2 c List.mem_cons_self
    exact ⟨hascii, hquote, hslash⟩
  · decide
  · decide
  · decide
  · decide
  · decide

theorem isValueChar_of_base64 {c : Char} (h : isBase64 c = true) : isValueChar c = true := by
  simp only [isBase64, Bool.or_eq_true, beq_iff_eq, or_assoc] at h
  rcases h with h | h | h | rfl | rfl | rfl
  · simp [isValueChar, isItemChar, h]
  · simp [isValueChar, isItemChar, h]
  · simp [isValueChar, isItemChar, h]
  · rfl
  · rfl
  · rfl

theorem isValueChar_of_tag {keyType tag : Str} (h : dkimKeyTags.lookup keyType = some tag) :
    tag.all isValueChar = true := by
  have hmem := mem_dkimKeyTags h
  simp only [dkimKeyTags, List.mem_cons, Prod.mk.injEq, List.not_mem_nil, or_false] at hmem
  rcases hmem with ⟨-, rfl⟩ | ⟨-, rfl⟩
  · decide
  · decide

theorem plainName_append {front name : Str} (hfront : PlainName front)
    (hname : PlainName name) : PlainName (front ++ '.' :: name) := by
  refine ⟨fun c hc => ?_, fun label hlabel => ?_⟩
  · rcases List.mem_append.mp hc with hc | hc
    · exact hfront.1 c hc
    · rcases List.mem_cons.mp hc with rfl | hc
      · rfl
      · exact hname.1 c hc
  · rw [splitOnChar_append] at hlabel
    rcases List.mem_append.mp hlabel with hlabel | hlabel
    · exact hfront.2 label hlabel
    · exact hname.2 label hlabel

theorem printable_of_records (haccepted : Accepted name selector key) (hname : GoodDomain name)
    (hselector : GoodSelector selector)
    (h : dnsRecords name selector key host.name dkimOnly = .ok records) :
    ∀ record ∈ records, Printable host record := by
  obtain ⟨tag, publicKey, htag, hkey, -, rfl⟩ := dnsRecords_ok_iff.mp h
  have hplain := plainName_of_labels hname.labels
  have hplainSelector := plainName_of_labels hselector
  have hdomainkey : PlainName "_domainkey".toList :=
    ⟨List.all_eq_true.mp (by decide), by decide⟩
  have hdmarc : PlainName "_dmarc".toList := ⟨List.all_eq_true.mp (by decide), by decide⟩
  have htext : ∀ text : Str, text.all isValueChar = true →
      ∀ c ∈ text, c.toNat < 128 ∧ c ≠ '"' ∧ c ≠ '\\' :=
    fun text hall c hc => plain_valueChar (List.all_eq_true.mp hall c hc)
  have howner : selector ++ "._domainkey.".toList ++ name =
      (selector ++ '.' :: "_domainkey".toList) ++ '.' :: name := by
    simp
  have hopen := htext "v=DKIM1; k=".toList (by decide)
  have hhash := htext "; h=sha256; p=".toList (by decide)
  have hvalue : ∀ c ∈ dkimValue tag publicKey, c.toNat < 128 ∧ c ≠ '"' ∧ c ≠ '\\' := by
    intro c hc
    unfold dkimValue at hc
    rcases List.mem_append.mp hc with hc | hc
    · rcases List.mem_append.mp hc with hc | hc
      · rcases List.mem_append.mp hc with hc | hc
        · exact hopen c hc
        · exact htext tag (isValueChar_of_tag htag) c hc
      · exact hhash c hc
    · exact plain_valueChar (isValueChar_of_base64 (haccepted.publicKey publicKey hkey c hc))
  have hdkim : Printable host (dkimRecord name selector tag publicKey) := by
    rw [dkimRecord, howner]
    exact .txt (plainName_append (plainName_append hplainSelector hdomainkey) hplain) hvalue
  intro record hrecord
  rcases List.mem_cons.mp hrecord with rfl | hrecord
  · exact hdkim
  · cases dkimOnly with
    | true => cases hrecord
    | false =>
      simp only [Bool.false_eq_true, if_false, mailRecords, List.mem_cons, List.not_mem_nil,
        or_false] at hrecord
      rcases hrecord with rfl | rfl | rfl
      · exact .mx hplain
      · exact .txt hplain (htext _ (by decide))
      · have howner : "_dmarc.".toList ++ name = "_dmarc".toList ++ '.' :: name := rfl
        rw [howner]
        exact .txt (plainName_append hdmarc hplain) (htext _ (by decide))

theorem short_iff (h : dnsRecords name selector key host.name dkimOnly = .ok records) :
    (∀ record ∈ records, record.name.length ≤ 253) ↔ selector.length + name.length ≤ 241 ∧
      (dkimOnly = false → name.length ≤ 246) := by
  obtain ⟨tag, publicKey, htag, hkey, -, rfl⟩ := dnsRecords_ok_iff.mp h
  have hdkim : (dkimRecord name selector tag publicKey).name.length =
      selector.length + name.length + 12 := by
    rw [dkimRecord, List.length_append, List.length_append]
    show selector.length + 12 + name.length = _
    omega
  have hdmarc : ("_dmarc.".toList ++ name).length = name.length + 7 := by
    rw [List.length_append]
    exact Nat.add_comm 7 _
  cases dkimOnly with
  | true =>
    simp only [if_true, List.forall_mem_singleton, hdkim]
    constructor
    · exact fun hshort => ⟨by omega, fun hbad => (by cases hbad)⟩
    · rintro ⟨hshort, -⟩
      omega
  | false =>
    simp only [Bool.false_eq_true, if_false, mailRecords, List.forall_mem_cons, hdkim, hdmarc]
    constructor
    · rintro ⟨hshort, -, -, hmail, -⟩
      exact ⟨by omega, fun _ => by omega⟩
    · rintro ⟨hshort, hmail⟩
      have hmail := hmail trivial
      refine ⟨by omega, by omega, by omega, by omega, fun record hrecord => (by cases hrecord)⟩

/-- For what the script is given, the printed zone is right just when no line break was let
through and the names of the records are not too long. -/
theorem printsMeant_iff (haccepted : Accepted name selector key) :
    PrintsMeant name selector key host dkimOnly ↔ PrintsRightly name selector key dkimOnly := by
  have hdomain := goodDomain_iff haccepted.names.1
  have hselector := goodSelector_iff haccepted.names.2
  constructor
  · intro h
    have hshort : HasPublicKey key → selector.length + name.length ≤ 241 ∧
        (dkimOnly = false → name.length ≤ 246) := by
      intro hkey
      obtain ⟨records, hrecords⟩ : ∃ records,
          dnsRecords name selector key host.name dkimOnly = .ok records :=
        exists_records_iff.mpr hkey
      have hprintable := printable_of_records haccepted h.names.1 h.names.2 hrecords
      obtain ⟨resources, hread, -⟩ := h.zone records hrecords
      rw [readZone_formatZone hprintable (records_ne_nil hrecords)] at hread
      refine (short_iff hrecords).mp (by_contra fun hlong => ?_)
      rw [if_neg hlong] at hread
      cases hread
    exact ⟨⟨hdomain.mp h.names.1, hselector.mp h.names.2⟩, fun hkey => (hshort hkey).1,
      fun hkey => (hshort hkey).2⟩
  · intro h
    have hnames : GoodDomain name ∧ GoodSelector selector :=
      ⟨hdomain.mpr h.names.1, hselector.mpr h.names.2⟩
    refine ⟨hnames, fun records hrecords => ?_⟩
    have hkey := exists_records_iff.mp ⟨records, hrecords⟩
    have hprintable := printable_of_records haccepted hnames.1 hnames.2 hrecords
    refine ⟨records.map (resourceOf host), ?_, ?_⟩
    · rw [readZone_formatZone hprintable (records_ne_nil hrecords), if_pos]
      exact (short_iff hrecords).mpr ⟨h.dkim hkey, h.dmarc hkey⟩
    · rw [List.forall₂_map_right_iff, List.forall₂_same]
      exact fun record hrecord => means_resourceOf (hprintable record hrecord)

def demoKey : Key := ⟨0, some "bl".toList, some keyTypeRsa, some active, some "MIIBIjAN".toList⟩

theorem accepted_demo : Accepted "demo.example.com".toList "bl".toList demoKey := by
  refine ⟨⟨rfl, rfl⟩, fun publicKey hkey => ?_⟩
  cases hkey
  exact List.all_eq_true.mp (by decide)

theorem demo_zone_is_meant :
    PrintsMeant "demo.example.com".toList "bl".toList demoKey defaultMailHost false :=
  (printsMeant_iff accepted_demo).mpr
    ⟨⟨by decide, by decide⟩, fun _ => by decide, fun _ _ => by decide⟩

/-- A line break at the end of a domain is let through. -/
theorem newline_is_accepted :
    Accepted "example.com\n".toList "bl".toList demoKey ∧
      ¬ PrintsMeant "example.com\n".toList "bl".toList demoKey defaultMailHost false := by
  refine ⟨⟨⟨rfl, rfl⟩, fun publicKey hkey => ?_⟩, fun h => ?_⟩
  · cases hkey
    exact List.all_eq_true.mp (by decide)
  · exact newline_not_mem_of_labels h.names.1.labels (by decide)

end Zone

end SendingDomain
end SharedInfra.Mail
