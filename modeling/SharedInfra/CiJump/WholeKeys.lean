import SharedInfra.CiJump.KeyFormat

/-!
# Which keys are let through

`check_keys` compares the texts of the bodies, so of two entries with one blob it
sees the repetition only where their texts are one.  Two texts of one blob are
twins: they differ in the bits after the last byte (`blob_eq_iff`).
-/

namespace SharedInfra.CiJump

open Python Sequences

section Lists

variable {ω : Type}

def blob (key : Str × Str) : Option Bytes := b64decode (asciiBytes key.2)

theorem scanKeys_parts {number : Nat} {found keys : List (Str × Str)} {items : List (Object ω)}
    (hfound : ∀ key ∈ found, ∃ text, NearKey text key) (hnodup : found.Nodup)
    (h : scanKeys number found items = .ok keys) :
    (∀ key ∈ keys, ∃ text, NearKey text key) ∧ keys.Nodup := by
  induction items generalizing number found with
  | nil =>
    obtain rfl : found = keys := Except.ok.inj h
    exact ⟨hfound, hnodup⟩
  | cons item items ih =>
    cases item with
    | list _ | other _ => cases h
    | text entry =>
      rw [scanKeys] at h
      cases hparts : keyParts entry with
      | none =>
        rw [hparts] at h
        cases h
      | some parts =>
        rw [hparts] at h
        by_cases hrepeat : parts ∈ found
        · simp only [if_pos hrepeat] at h
          cases h
        · simp only [if_neg hrepeat] at h
          refine ih ?_ ?_ h
          · intro key hkey
            rcases List.mem_append.mp hkey with hkey | hkey
            · exact hfound key hkey
            · rw [List.mem_singleton.mp hkey]
              exact ⟨entry, keyParts_eq_some_iff.mp hparts⟩
          · refine List.nodup_append.mpr ⟨hnodup, List.nodup_singleton _, ?_⟩
            intro a ha b hb heq
            exact hrepeat (List.mem_singleton.mp hb ▸ heq ▸ ha)

theorem checkKeys_parts {v : Object ω} {keys : List (Str × Str)} (h : checkKeys v = .ok keys) :
    (∀ key ∈ keys, ∃ text, NearKey text key) ∧ keys.Nodup := by
  match v, h with
  | .list (first :: rest), h =>
    exact scanKeys_parts (by simp) List.nodup_nil (show scanKeys 1 [] _ = _ from h)

theorem NearKey.type_eq {text text' : Str} {key key' : Str × Str} (h : NearKey text key)
    (h' : NearKey text' key') (hblob : blob key = blob key') : key.1 = key'.1 := by
  obtain ⟨raw, _, -, -, ⟨kinds, fields, hmem, hraw, hsizes, -⟩, -, hdecode⟩ := h
  obtain ⟨raw', _, -, -, ⟨kinds', fields', hmem', hraw', hsizes', -⟩, -, hdecode'⟩ := h'
  rw [blob, blob, hdecode, hdecode', Option.some.injEq] at hblob
  subst hblob
  have hread := readFields_blob hmem hraw hsizes
  have hread' := readFields_blob hmem' hraw' hsizes'
  have hbytes := (List.cons.inj (Option.some.inj (hread.symm.trans hread'))).1
  have hascii : ∀ {keyType : Str} {kinds : List FieldKind},
      (keyType, kinds) ∈ formatWith .anything → ∀ c ∈ keyType, c.toNat < 128 := by
    intro keyType kinds hmem c hc
    have := List.all_eq_true.mp (keyType_plain hmem) c hc
    simp only [Bool.and_eq_true, decide_eq_true_eq] at this
    exact this.1.1
  rw [← asciiText_asciiBytes (hascii hmem), hbytes, asciiText_asciiBytes (hascii hmem')]

theorem blob_eq_iff {text text' : Str} {key key' : Str × Str} (h : NearKey text key)
    (h' : NearKey text' key') (hne : key ≠ key') :
    blob key = blob key' ↔ PaddingTwins (asciiBytes key.2) (asciiBytes key'.2) := by
  constructor
  · intro hblob
    have htype := h.type_eq h' hblob
    obtain ⟨raw, _, -, -, -, hbody, hdecode⟩ := h
    obtain ⟨_, _, -, -, -, hbody', -⟩ := h'
    have hdecode' : b64decode (asciiBytes key'.2) = some raw := hblob.symm.trans hdecode
    refine ((b64decode_eq_iff hdecode).mp hdecode').resolve_left fun hbytes => hne ?_
    have htext := congrArg asciiText hbytes
    rw [asciiText_asciiBytes (base64Body_ascii hbody),
      asciiText_asciiBytes (base64Body_ascii hbody')] at htext
    exact Prod.ext htype htext
  · exact b64decode_twins

/-- A text is judged rightly when, if it is a near key, it is well spelled; and of the keys let
through no two have one blob when no two of their bodies are twins. -/
theorem keyParts_checkKeys_iff {v : Object ω} {keys : List (Str × Str)} (text : Str)
    (h : checkKeys v = .ok keys) :
    ((∀ parts, keyParts text = some parts ↔ WholeKey text parts) ↔
        ∀ parts, NearKey text parts → WellSpelled parts) ∧
      ((keys.Pairwise fun a b => blob a ≠ blob b) ↔
        keys.Pairwise fun a b => ¬PaddingTwins (asciiBytes a.2) (asciiBytes b.2)) := by
  constructor
  · constructor
    · intro hwhole parts hnear
      have hparts : keyParts text = some parts := keyParts_eq_some_iff.mpr hnear
      have hkey : WholeKey text parts := (hwhole parts).mp hparts
      exact (wholeKey_iff.mp hkey).2
    · intro hspelled parts
      constructor
      · intro hparts
        have hnear : NearKey text parts := keyParts_eq_some_iff.mp hparts
        exact wholeKey_iff.mpr ⟨hnear, hspelled parts hnear⟩
      · intro hkey
        exact keyParts_eq_some_iff.mpr (wholeKey_iff.mp hkey).1
  · obtain ⟨hnear, hnodup⟩ := checkKeys_parts h
    have hpair : ∀ a ∈ keys, ∀ b ∈ keys, a ≠ b →
        (blob a = blob b ↔ PaddingTwins (asciiBytes a.2) (asciiBytes b.2)) := by
      intro a ha b hb hne
      obtain ⟨text, htext⟩ := hnear a ha
      obtain ⟨text', htext'⟩ := hnear b hb
      exact blob_eq_iff htext htext' hne
    constructor
    · intro hblobs
      refine (List.Pairwise.and hnodup hblobs).imp_of_mem fun ha hb hab htwins => ?_
      exact hab.2 ((hpair _ ha _ hb hab.1).mpr htwins)
    · intro htwins
      refine (List.Pairwise.and hnodup htwins).imp_of_mem fun ha hb hab hblob => ?_
      exact hab.2 ((hpair _ ha _ hb hab.1).mp hblob)

/-- A list of one key has no two with one blob. -/
theorem keyParts_checkKeys_iff_plain :
    [("ssh-ed25519".toList, plainBody)].Pairwise fun a b => blob a ≠ blob b :=
  (keyParts_checkKeys_iff [] checkKeys_plain).2.mpr (List.pairwise_singleton _ _)

/-- The base64 text of a key on the curve `nistp256`, up to its last character. -/
def ecdsaFront : Str :=
  "AAAAE2VjZHNhLXNoYTItbmlzdHAyNTYAAAAIbmlzdHAyNTYAAABBBGsX0fLhLEJH+Lzm5".toList ++
    "WOkQPJ3A32BLeszoPShOUXYmMKWT+NC4v4af5uO5+tKfA+eFivOM1drMV7Oy7ZAaDe/Uf".toList

/-- The key as it is encoded. -/
def ecdsaBody : Str := ecdsaFront ++ ['U', '=']

/-- The same key with a bit set after its last byte. -/
def ecdsaTwin : Str := ecdsaFront ++ ['V', '=']

def ecdsaType : Str := "ecdsa-sha2-nistp256".toList

theorem ecdsaFront_eq : ecdsaFront =
    "AAAAE2VjZHNhLXNoYTItbmlzdHAyNTYAAAAIbmlzdHAyNTYAAABBBGsX0fLhLEJH+Lzm5".toList ++
      "WOkQPJ3A32BLeszoPShOUXYmMKWT+NC4v4af5uO5+tKfA+eFivOM1drMV7Oy7ZAaDe/Uf".toList := rfl

theorem keyParts_ecdsa :
    keyParts (ecdsaType ++ ' ' :: ecdsaBody) = some (ecdsaType, ecdsaBody) ∧
      keyParts (ecdsaType ++ ' ' :: ecdsaTwin) = some (ecdsaType, ecdsaTwin) := by
  have htype : ecdsaType = "ecdsa-sha2-nistp256".toList := rfl
  simp only [ecdsaBody, ecdsaTwin, htype, ecdsaFront_eq, toList_literal]
  decide +kernel

theorem b64encode_ecdsa :
    (b64decode (asciiBytes ecdsaTwin)).map b64encode = some (asciiBytes ecdsaBody) := by
  simp only [ecdsaBody, ecdsaTwin, ecdsaFront_eq, toList_literal]
  decide

theorem ecdsaTwin_ne : ecdsaTwin ≠ ecdsaBody := by
  intro h
  exact absurd (List.append_cancel_left h) (by decide)

/-- One key is let through twice, the second time under a text that is not its base64. -/
theorem twin_let_through :
    checkKeys (.list [.text (ecdsaType ++ ' ' :: ecdsaBody),
        .text (ecdsaType ++ ' ' :: ecdsaTwin)] : Object Unit) =
      .ok [(ecdsaType, ecdsaBody), (ecdsaType, ecdsaTwin)] ∧
    blob (ecdsaType, ecdsaBody) = blob (ecdsaType, ecdsaTwin) ∧
    keyParts (ecdsaType ++ ' ' :: ecdsaTwin) = some (ecdsaType, ecdsaTwin) ∧
    ¬WholeKey (ecdsaType ++ ' ' :: ecdsaTwin) (ecdsaType, ecdsaTwin) := by
  obtain ⟨hbody, htwin⟩ := keyParts_ecdsa
  obtain ⟨raw, hraw, hencode⟩ := Option.map_eq_some_iff.mp b64encode_ecdsa
  refine ⟨?_, ?_, htwin, ?_⟩
  · have hrepeat : (ecdsaType, ecdsaTwin) ∉ [(ecdsaType, ecdsaBody)] := by
      rw [List.mem_singleton]
      exact fun h => ecdsaTwin_ne (Prod.mk.inj h).2
    simp only [checkKeys, scanKeys, hbody, htwin, List.not_mem_nil, if_false, List.nil_append,
      if_neg hrepeat]
    rfl
  · rw [blob, blob, hraw, ← hencode, b64decode_b64encode]
  · rintro ⟨raw', tail, -, -, -, htext⟩
    have hbytes := congrArg asciiBytes htext
    rw [asciiBytes_asciiText] at hbytes
    have hdecode := congrArg b64decode hbytes
    rw [b64decode_b64encode, hraw, Option.some.injEq] at hdecode
    rw [← hdecode, hencode] at hbytes
    have htexts := congrArg asciiText hbytes
    have hascii : ∀ body ∈ [ecdsaBody, ecdsaTwin], body.all (fun c => decide (c.toNat < 128)) = true := by
      simp only [ecdsaBody, ecdsaTwin, ecdsaFront_eq, toList_literal]
      decide
    have hchars : ∀ body ∈ [ecdsaBody, ecdsaTwin], ∀ c ∈ body, c.toNat < 128 := by
      intro body hmem c hc
      exact of_decide_eq_true (List.all_eq_true.mp (hascii body hmem) c hc)
    rw [asciiText_asciiBytes (hchars _ (by simp)), asciiText_asciiBytes (hchars _ (by simp))] at htexts
    exact ecdsaTwin_ne htexts

end Lists

end SharedInfra.CiJump
