import SharedInfra.Dns.ZoneCheck
import SharedInfra.Python.LastLine

/-!
# Stripped transcripts

`strip_transcript` keeps lines by what they start with, and `zone_from_transcript` reads comments
by what they hold and records by their words.  On lines as dig prints them (`LikeDig`) the reader
passes over every line that is left out (`readLine_dropped`), so a stripped transcript shows the
same zone (`stripTranscript_keeps`).
-/

namespace SharedInfra.Dns
namespace ZoneCheck

open Python

section Words

variable {n : Nat} {s w : Str} {words : List Str}

theorem splitMax_succ (h : splitMax (n + 1) s = w :: words) :
    ∃ blanks rest, s = blanks ++ w ++ rest ∧ (∀ c ∈ blanks, isSpace c = true) ∧ w ≠ [] ∧
      (∀ c ∈ w, isSpace c = false) ∧ (∀ c, rest.head? = some c → isSpace c = true) ∧
      splitMax n rest = words := by
  rw [splitMax] at h
  split_ifs at h with hempty
  obtain ⟨rfl, rfl⟩ := List.cons.inj h
  refine ⟨s.takeWhile isSpace, (lstrip s).dropWhile fun c => !isSpace c, ?_, ?_, ?_, ?_, ?_, rfl⟩
  · rw [List.append_assoc, List.takeWhile_append_dropWhile, lstrip, List.takeWhile_append_dropWhile]
  · exact fun c hc => List.mem_takeWhile_imp hc
  · intro hnil
    have hne : s.dropWhile isSpace ≠ [] := by simpa [lstrip] using hempty
    have hhead := List.head_dropWhile_not _ hne
    obtain ⟨c, rest, hcons⟩ := List.exists_cons_of_ne_nil hne
    simp only [hcons, List.head_cons] at hhead
    rw [lstrip, hcons, List.takeWhile_cons_of_pos (by simp [hhead])] at hnil
    cases hnil
  · exact fun c hc => by simpa using List.mem_takeWhile_imp hc
  · intro c hc
    have hne : (lstrip s).dropWhile (fun c => !isSpace c) ≠ [] := by
      rintro hnil
      rw [hnil] at hc
      cases hc
    have hhead := List.head_dropWhile_not _ hne
    rw [List.head?_eq_some_head hne] at hc
    rw [Option.some.inj hc] at hhead
    simpa using hhead

end Words

section Dropped

variable {tables : CharTables} {qname qtype line : Str}

theorem holdsClass_append (front : Str) {c d : Char} {rest : Str} (hc : isSpace c = true)
    (hd : isSpace d = true) : holdsClass (front ++ c :: 'I' :: 'N' :: d :: rest) = true := by
  induction front with
  | nil => simp [holdsClass, hc, hd, startsWith]
  | cons e front ih => rw [List.cons_append, holdsClass, ih, Bool.or_true]

theorem isRecordLine_of_fields {owner ttl rtype rdata : Str}
    (h : splitMax 4 line = [owner, ttl, ['I', 'N'], rtype, rdata])
    (hcomment : startsWith line [';'] = false) (hhead : ∀ c, line.head? = some c → isSpace c = false) :
    isRecordLine line = true := by
  obtain ⟨blanks, rest, rfl, hblanks, howner, -, hrest, h⟩ := splitMax_succ h
  obtain ⟨blanks₁, rest₁, rfl, hblanks₁, httl, -, hrest₁, h⟩ := splitMax_succ h
  obtain ⟨blanks₂, rest₂, rfl, hblanks₂, -, -, hrest₂, h⟩ := splitMax_succ h
  obtain ⟨blanks₃, rest₃, rfl, hblanks₃, hrtype, -⟩ := splitMax_succ h
  obtain rfl : blanks = [] := by
    refine List.eq_nil_iff_forall_not_mem.mpr fun c hc => ?_
    obtain ⟨d, blanks, rfl⟩ := List.exists_cons_of_ne_nil (List.ne_nil_of_mem hc)
    have hd := hhead d rfl
    rw [hblanks d List.mem_cons_self] at hd
    cases hd
  obtain ⟨o, owner, rfl⟩ := List.exists_cons_of_ne_nil howner
  obtain ⟨front, c, rfl⟩ : ∃ front c, blanks₂ = front ++ [c] := by
    rcases List.eq_nil_or_concat blanks₂ with rfl | ⟨front, c, hconcat⟩
    · exact absurd (hrest₁ 'I' rfl) (by decide)
    · exact ⟨front, c, hconcat.trans List.concat_eq_append⟩
  obtain ⟨d, rest, hd⟩ : ∃ d rest, blanks₃ ++ rtype ++ rest₃ = d :: rest :=
    List.exists_cons_of_ne_nil (by simp [hrtype])
  rw [hd] at hrest₂ ⊢
  have htail : holdsClass (owner ++ (blanks₁ ++ ttl ++ (front ++ [c] ++ ['I', 'N'] ++ d :: rest))) =
      true := by
    have hclass : holdsClass ((owner ++ blanks₁ ++ ttl ++ front) ++ c :: 'I' :: 'N' :: d :: rest) =
        true := holdsClass_append _ (hblanks₂ c (by simp)) (hrest₂ d rfl)
    simpa using hclass
  have ho : (o != ';') = true := by
    rw [bne_iff_ne]
    rintro rfl
    simp [startsWith] at hcomment
  simp only [List.nil_append, List.cons_append, isRecordLine, ho, hhead o rfl, Bool.not_false,
    Bool.and_self, Bool.true_and]
  exact htail

/-- A line as dig prints it: a status or flags stand on the lines that dig puts them on, and a record
starts with its owner. -/
structure LikeDig (line : Str) : Prop where
  comment : startsWith line [';'] = true → (findStatus line).isSome ∨ (findFlags line).isSome →
    isMinimalKeep line = true
  record : startsWith line [';'] = false → ∀ owner ttl rtype rdata,
    splitMax 4 line = [owner, ttl, ['I', 'N'], rtype, rdata] →
    ∀ c, line.head? = some c → isSpace c = false

theorem readLine_dropped (h : LikeDig line) (hkeep : isMinimalKeep line = false)
    (hrecord : isRecordLine line = false) (s : DigState) :
    readLine tables qname qtype s line = .ok s := by
  rw [readLine]
  split_ifs with hcomment
  · have hnone : ¬ ((findStatus line).isSome ∨ (findFlags line).isSome) := fun hfound => by
      rw [h.comment hcomment hfound] at hkeep
      cases hkeep
    rw [not_or, Option.not_isSome_iff_eq_none, Option.not_isSome_iff_eq_none] at hnone
    rw [readComment, hnone.1, hnone.2]
    rfl
  · rw [Bool.not_eq_true] at hcomment
    split
    · rename_i owner ttl cls rtype rdata hfields
      rw [if_pos]
      rintro rfl
      rw [isRecordLine_of_fields hfields hcomment (h.record hcomment _ _ _ _ hfields)] at hrecord
      cases hrecord
    · rfl

end Dropped

section Blocks

variable {tables : CharTables} {qname qtype zoneName text : Str} {lines : List Str}

theorem foldlM_splitlines_joinWith (h : ∀ line ∈ lines, ∀ c ∈ line, isLineBreak c = false)
    (s : DigState) : (splitlines (joinWith ['\n'] lines)).foldlM (readLine tables qname qtype) s =
      lines.foldlM (readLine tables qname qtype) s := by
  induction lines generalizing s with
  | nil => rfl
  | cons line lines ih =>
    obtain ⟨hline, hlines⟩ := List.forall_mem_cons.mp h
    cases lines with
    | nil =>
      rw [joinWith]
      by_cases hne : line = []
      · subst hne
        rfl
      · rw [splitlines_single hne hline]
    | cons next lines =>
      rw [joinWith_cons_cons, List.append_assoc, List.singleton_append,
        splitlines_append_newline hline, List.foldlM_cons, List.foldlM_cons]
      refine congrArg _ (funext fun s' => ih hlines s')

def isKept (line : Str) : Bool := isMinimalKeep line || isRecordLine line

theorem foldlM_filter (h : ∀ line ∈ lines, LikeDig line) (s : DigState) :
    (lines.filter isKept).foldlM (readLine tables qname qtype) s =
      lines.foldlM (readLine tables qname qtype) s := by
  induction lines generalizing s with
  | nil => rfl
  | cons line lines ih =>
    obtain ⟨hline, hlines⟩ := List.forall_mem_cons.mp h
    cases hkept : isKept line with
    | true =>
      rw [List.filter_cons_of_pos hkept, List.foldlM_cons, List.foldlM_cons]
      exact congrArg _ (funext fun s' => ih hlines s')
    | false =>
      rw [isKept, Bool.or_eq_false_iff] at hkept
      rw [List.filter_cons_of_neg (by simp [isKept, hkept]), List.foldlM_cons,
        readLine_dropped hline hkept.1 hkept.2]
      exact ih hlines s

theorem parseDig_filter (hbreak : ∀ line ∈ lines, ∀ c ∈ line, isLineBreak c = false)
    (hdig : ∀ line ∈ lines, LikeDig line) {r : Str × List Str × Finset (Int × Str)}
    (h : parseDig tables (joinWith ['\n'] lines) qname qtype = .ok r) :
    parseDig tables (joinWith ['\n'] (lines.filter isKept)) qname qtype = .ok r := by
  have hbreak' : ∀ line ∈ lines.filter isKept, ∀ c ∈ line, isLineBreak c = false :=
    fun line hline => hbreak line (List.mem_of_mem_filter hline)
  rw [parseDig, foldlM_splitlines_joinWith hbreak] at h
  rw [parseDig, foldlM_splitlines_joinWith hbreak', foldlM_filter hdig]
  cases hread : lines.foldlM (readLine tables qname qtype) ⟨none, [], ∅⟩ with
  | error e =>
    rw [hread] at h
    cases h
  | ok s =>
    rw [hread] at h
    cases hrcode : s.rcode with
    | none =>
      simp only [bind, Except.bind, hrcode] at h
      cases h
    | some rcode =>
      simp only [bind, Except.bind, hrcode] at h ⊢
      exact h

def Block.stripped (b : Block) : Block := { b with lines := b.lines.filter isKept }

theorem readBlock_stripped {b : Block} {shown shown' : Shown}
    (hbreak : ∀ line ∈ b.lines, ∀ c ∈ line, isLineBreak c = false)
    (hdig : ∀ line ∈ b.lines, LikeDig line)
    (h : readBlock tables zoneName shown b = .ok shown') :
    readBlock tables zoneName shown b.stripped = .ok shown' := by
  simp only [readBlock, Block.stripped] at h ⊢
  cases hname : nameInZone tables zoneName b.qname with
  | none =>
    rw [hname] at h
    cases h
  | some name =>
    rw [hname] at h
    simp only at h ⊢
    cases hparse : parseDig tables (joinWith ['\n'] b.lines) b.qname (tokenType b.token) with
    | error e =>
      rw [hparse] at h
      cases h
    | ok r =>
      rw [hparse] at h
      rw [parseDig_filter hbreak hdig hparse]
      exact h

theorem foldlM_readBlock_stripped {blocks : List Block} {shown shown' : Shown}
    (hbreak : ∀ b ∈ blocks, ∀ line ∈ b.lines, ∀ c ∈ line, isLineBreak c = false)
    (hdig : ∀ b ∈ blocks, ∀ line ∈ b.lines, LikeDig line)
    (h : blocks.foldlM (readBlock tables zoneName) shown = .ok shown') :
    (blocks.map Block.stripped).foldlM (readBlock tables zoneName) shown = .ok shown' := by
  induction blocks generalizing shown with
  | nil => exact h
  | cons b blocks ih =>
    obtain ⟨hb, hblocks⟩ := List.forall_mem_cons.mp hbreak
    obtain ⟨hb', hblocks'⟩ := List.forall_mem_cons.mp hdig
    rw [List.foldlM_cons] at h
    cases hread : readBlock tables zoneName shown b with
    | error e =>
      rw [hread] at h
      cases h
    | ok mid =>
      rw [hread] at h
      rw [List.map_cons, List.foldlM_cons, readBlock_stripped hb hb' hread]
      exact ih hblocks hblocks' h

end Blocks

section Transcripts

variable {tables : CharTables} {text zoneName : Str} {lines : List Str} {blocks blocks' : List Block}

theorem isKept_of_header {line : Str} {header : Str × Str} (h : queryHeader line = some header) :
    isKept line = true := by
  rw [queryHeader] at h
  split_ifs at h with hstart
  rw [isKept, isMinimalKeep, hstart]
  rfl

theorem addToLast_stripped_keep {line : Str} (hkept : isKept line = true) (blocks : List Block) :
    addToLast line (blocks.map Block.stripped) = (addToLast line blocks).map Block.stripped := by
  fun_induction addToLast line blocks with
  | case1 => rfl
  | case2 b => simp [addToLast, Block.stripped, hkept]
  | case3 b rest hrest ih =>
    cases rest with
    | nil => exact absurd rfl hrest
    | cons next rest =>
      rw [List.map_cons, List.map_cons] at *
      rw [addToLast, ih]
      · rfl
      · exact fun h => List.cons_ne_nil _ _ h

theorem addToLast_stripped_drop {line : Str} (hkept : isKept line = false) (blocks : List Block) :
    (addToLast line blocks).map Block.stripped = blocks.map Block.stripped := by
  fun_induction addToLast line blocks with
  | case1 => rfl
  | case2 b => simp [Block.stripped, hkept]
  | case3 b rest hrest ih => rw [List.map_cons, ih, List.map_cons]

theorem addLine_keep {line : Str} (hkept : isKept line = true) (blocks : List Block) :
    addLine (blocks.map Block.stripped) line =
      (addLine blocks line).map fun blocks => blocks.map Block.stripped := by
  rw [addLine, addLine]
  cases queryHeader line with
  | some header => simp [Except.map, Block.stripped]
  | none =>
    simp only [ne_eq, List.map_eq_nil_iff]
    split_ifs
    · rfl
    · rfl
    · exact congrArg Except.ok (addToLast_stripped_keep hkept blocks)

theorem addLine_drop {line : Str} (hkept : isKept line = false)
    (h : addLine blocks line = .ok blocks') :
    blocks'.map Block.stripped = blocks.map Block.stripped := by
  rw [addLine] at h
  cases hheader : queryHeader line with
  | some header =>
    rw [isKept_of_header hheader] at hkept
    cases hkept
  | none =>
    rw [hheader] at h
    simp only at h
    split_ifs at h
    · rw [← Except.ok.inj h]
      exact addToLast_stripped_drop hkept blocks
    · rw [Except.ok.inj h]

theorem foldlM_addLine_filter (h : lines.foldlM addLine blocks = .ok blocks') :
    (lines.filter isKept).foldlM addLine (blocks.map Block.stripped) =
      .ok (blocks'.map Block.stripped) := by
  induction lines generalizing blocks with
  | nil =>
    rw [← Except.ok.inj h]
    rfl
  | cons line lines ih =>
    rw [List.foldlM_cons] at h
    cases hadd : addLine blocks line with
    | error e =>
      rw [hadd] at h
      cases h
    | ok mid =>
      rw [hadd] at h
      cases hkept : isKept line with
      | true =>
        rw [List.filter_cons_of_pos hkept, List.foldlM_cons, addLine_keep hkept, hadd]
        exact ih h
      | false =>
        rw [List.filter_cons_of_neg (by simp [hkept]), ← addLine_drop hkept hadd]
        exact ih h

theorem addToLast_forall {p : Str → Prop} {line : Str} (hline : p line)
    (h : ∀ b ∈ blocks, ∀ l ∈ b.lines, p l) : ∀ b ∈ addToLast line blocks, ∀ l ∈ b.lines, p l := by
  fun_induction addToLast line blocks with
  | case1 => exact h
  | case2 b =>
    refine List.forall_mem_singleton.mpr fun l hl => ?_
    rcases List.mem_append.mp hl with hl | hl
    · exact h b List.mem_cons_self l hl
    · exact List.mem_singleton.mp hl ▸ hline
  | case3 b rest _ ih =>
    obtain ⟨hb, hrest⟩ := List.forall_mem_cons.mp h
    exact List.forall_mem_cons.mpr ⟨hb, ih hrest⟩

theorem foldlM_addLine_forall {p : Str → Prop} (hlines : ∀ l ∈ lines, p l)
    (hblocks : ∀ b ∈ blocks, ∀ l ∈ b.lines, p l) (h : lines.foldlM addLine blocks = .ok blocks') :
    ∀ b ∈ blocks', ∀ l ∈ b.lines, p l := by
  induction lines generalizing blocks with
  | nil => exact Except.ok.inj h ▸ hblocks
  | cons line lines ih =>
    obtain ⟨hline, hlines⟩ := List.forall_mem_cons.mp hlines
    rw [List.foldlM_cons] at h
    cases hadd : addLine blocks line with
    | error e =>
      rw [hadd] at h
      cases h
    | ok mid =>
      rw [hadd] at h
      refine ih hlines ?_ h
      rw [addLine] at hadd
      split at hadd
      · rw [← Except.ok.inj hadd]
        refine List.forall_mem_append.mpr ⟨hblocks, ?_⟩
        exact List.forall_mem_singleton.mpr fun l hl => absurd hl List.not_mem_nil
      · split_ifs at hadd
        · exact Except.ok.inj hadd ▸ addToLast_forall hline hblocks
        · exact Except.ok.inj hadd ▸ hblocks

theorem splitlines_stripTranscript (text : Str) :
    splitlines (stripTranscript text) = (splitlines text).filter isKept :=
  splitlines_unlines fun line hline =>
    noBreak_of_mem_splitlines text line (List.mem_of_mem_filter hline)

theorem stripTranscript_idempotent (text : Str) :
    stripTranscript (stripTranscript text) = stripTranscript text := by
  show unlines ((splitlines (stripTranscript text)).filter isKept) = _
  rw [splitlines_stripTranscript, List.filter_filter]
  simp only [Bool.and_self]
  rfl

theorem zoneFromTranscript_strip (hdig : ∀ line ∈ splitlines text, LikeDig line) {shown : Shown}
    (h : zoneFromTranscript tables text zoneName = .ok shown) :
    zoneFromTranscript tables (stripTranscript text) zoneName = .ok shown := by
  rw [zoneFromTranscript] at h ⊢
  cases hparse : parseTranscript text with
  | error e =>
    rw [hparse] at h
    cases h
  | ok blocks =>
    rw [hparse] at h
    have hstripped : parseTranscript (stripTranscript text) = .ok (blocks.map Block.stripped) := by
      rw [parseTranscript, splitlines_stripTranscript]
      exact foldlM_addLine_filter hparse
    rw [hstripped]
    refine foldlM_readBlock_stripped ?_ ?_ h
    · exact foldlM_addLine_forall (noBreak_of_mem_splitlines text) (by simp) hparse
    · exact foldlM_addLine_forall hdig (by simp) hparse

variable (tables text) in
/-- On lines as dig prints them a stripped transcript shows the same zone, so that it is checked
with the same outcome; stripped again it stays as it is. -/
theorem stripTranscript_keeps :
    stripTranscript (stripTranscript text) = stripTranscript text ∧
    ((∀ line ∈ splitlines text, LikeDig line) →
      (∀ zoneName shown, zoneFromTranscript tables text zoneName = .ok shown →
        zoneFromTranscript tables (stripTranscript text) zoneName = .ok shown) ∧
      ∀ declared problems, checkCapture tables text declared = .ok problems →
        checkCapture tables (stripTranscript text) declared = .ok problems) := by
  refine ⟨stripTranscript_idempotent text, fun hdig =>
    ⟨fun _ _ => zoneFromTranscript_strip hdig, fun declared problems h => ?_⟩⟩
  rw [checkCapture] at h ⊢
  cases hshown : zoneFromTranscript tables text declared.name with
  | error e =>
    rw [hshown] at h
    cases h
  | ok shown =>
    rw [hshown] at h
    rw [zoneFromTranscript_strip hdig hshown]
    exact h

/-- A transcript of one query. -/
def queryLines (status : Str) : List Str :=
  [";;; QUERY z. A @h".toList, status, ";; flags: aa;".toList]

/-- A status on dig's header line, and one on another comment line. -/
def digStatus : Str := ";; ->>HEADER<<- status: A".toList

def bareStatus : Str := "; status: A".toList

variable {status : Str}

theorem noBreak_queryLines (h : status = digStatus ∨ status = bareStatus) :
    ∀ line ∈ queryLines status, ∀ c ∈ line, isLineBreak c = false := by
  have hall : ((queryLines status).all fun line => line.all fun c => !isLineBreak c) = true := by
    rcases h with rfl | rfl
    · delta queryLines digStatus
      simp only [toList_literal]
      rfl
    · delta queryLines bareStatus
      simp only [toList_literal]
      rfl
  intro line hline c hc
  simpa using List.all_eq_true.mp (List.all_eq_true.mp hall line hline) c hc

theorem parseTranscript_queryLines (h : status = digStatus ∨ status = bareStatus) :
    parseTranscript (unlines (queryLines status)) =
      .ok [⟨"z.".toList, ['A'], [status, ";; flags: aa;".toList]⟩] := by
  rw [parseTranscript, splitlines_unlines (noBreak_queryLines h)]
  rcases h with rfl | rfl
  · delta queryLines addLine queryHeader digStatus
    simp only [toList_literal]
    rfl
  · delta queryLines addLine queryHeader bareStatus
    simp only [toList_literal]
    rfl

theorem parseDig_queryLines (h : status = digStatus ∨ status = bareStatus) :
    parseDig latinTables (joinWith ['\n'] [status, ";; flags: aa;".toList]) "z.".toList ['A'] =
      .ok (['A'], [['a', 'a']], ∅) := by
  rw [parseDig, foldlM_splitlines_joinWith fun line hline => noBreak_queryLines h line
    (List.mem_cons_of_mem _ hline)]
  rcases h with rfl | rfl
  · delta readLine readComment findStatus statusAt findFlags flagsAt digStatus
    simp only [toList_literal]
    rfl
  · delta readLine readComment findStatus statusAt findFlags flagsAt bareStatus
    simp only [toList_literal]
    rfl

theorem nameInZone_apex : nameInZone latinTables ['z'] "z.".toList = some ['@'] := by
  simp only [toList_literal]
  decide

theorem zoneFromTranscript_queryLines (h : status = digStatus ∨ status = bareStatus) :
    zoneFromTranscript latinTables (unlines (queryLines status)) ['z'] =
      .ok ⟨[], {(['@'], ['A'])}, [(['@'], ['A'])]⟩ := by
  have hread : readBlock latinTables ['z'] ⟨[], ∅, []⟩
      ⟨"z.".toList, ['A'], [status, ";; flags: aa;".toList]⟩ =
        .ok ⟨[], {(['@'], ['A'])}, [(['@'], ['A'])]⟩ := by
    rw [readBlock]
    simp only [nameInZone_apex, show tokenType ['A'] = ['A'] by decide, parseDig_queryLines h]
    decide
  rw [zoneFromTranscript, parseTranscript_queryLines h]
  exact congrArg (· >>= pure) hread

theorem stripTranscript_keeps_digStatus :
    zoneFromTranscript latinTables (stripTranscript (unlines (queryLines digStatus))) ['z'] =
      .ok ⟨[], {(['@'], ['A'])}, [(['@'], ['A'])]⟩ := by
  refine ((stripTranscript_keeps latinTables (unlines (queryLines digStatus))).2 ?_).1 _ _
    (zoneFromTranscript_queryLines (Or.inl rfl))
  rw [splitlines_unlines (noBreak_queryLines (Or.inl rfl))]
  have hkeep : ∀ line ∈ queryLines digStatus,
      isMinimalKeep line = true ∧ startsWith line [';'] = true := by
    delta queryLines digStatus isMinimalKeep
    simp only [toList_literal]
    decide
  intro line hline
  obtain ⟨hkept, hcomment⟩ := hkeep line hline
  refine ⟨fun _ _ => hkept, fun hrecord => ?_⟩
  rw [hcomment] at hrecord
  cases hrecord

/-- A status on another comment line than dig's header is lost with the line. -/
theorem bare_status_lost :
    ∃ shown, zoneFromTranscript latinTables (unlines (queryLines bareStatus)) ['z'] = .ok shown ∧
      zoneFromTranscript latinTables (stripTranscript (unlines (queryLines bareStatus))) ['z'] ≠
        .ok shown := by
  refine ⟨_, zoneFromTranscript_queryLines (Or.inr rfl), ?_⟩
  have hbreak := noBreak_queryLines (Or.inr rfl : bareStatus = digStatus ∨ _)
  have hkept : (splitlines (unlines (queryLines bareStatus))).filter isKept =
      [";;; QUERY z. A @h".toList, ";; flags: aa;".toList] := by
    rw [splitlines_unlines hbreak]
    delta queryLines bareStatus isKept isMinimalKeep
    simp only [toList_literal]
    rfl
  have hparse : parseTranscript (stripTranscript (unlines (queryLines bareStatus))) =
      .ok [⟨"z.".toList, ['A'], [";; flags: aa;".toList]⟩] := by
    rw [parseTranscript, splitlines_stripTranscript, hkept]
    delta addLine queryHeader
    simp only [toList_literal]
    rfl
  have hdig : parseDig latinTables (joinWith ['\n'] [";; flags: aa;".toList]) "z.".toList ['A'] =
      .error (.queryError ";; flags: aa;".toList) := by
    rw [parseDig, foldlM_splitlines_joinWith fun line hline => hbreak line
      (List.mem_cons_of_mem _ (List.mem_cons_of_mem _ hline))]
    delta readLine readComment findStatus statusAt findFlags flagsAt
    simp only [toList_literal]
    rfl
  have hread : readBlock latinTables ['z'] ⟨[], ∅, []⟩
      ⟨"z.".toList, ['A'], [";; flags: aa;".toList]⟩ =
        .error (.queryError ";; flags: aa;".toList) := by
    rw [readBlock]
    simp only [nameInZone_apex, show tokenType ['A'] = ['A'] by decide, hdig]
  rw [zoneFromTranscript, hparse]
  intro h
  have herror := congrArg (· >>= pure) hread
  cases herror.symm.trans h

end Transcripts

end ZoneCheck
end SharedInfra.Dns
