import SharedInfra.DeploySlots.Provision
import SharedInfra.Effects.Moves
import SharedInfra.Python.Lines

/-!
# Reading the register

A key that was read is written and read back as itself (`normalisePublicKey_line`), and
`read_slots` only reads (`readSlots_run`): what it gives depends on the names in the register and
on the texts its files lead to.
-/

namespace SharedInfra.DeploySlots

open Python Effects Prog

/-- The two fields of a key that `normalise_public_key` gives. -/
structure IsKey (key : Str × Str) : Prop where
  type : key.1 ∈ keyTypes
  blob : isBlob key.2 = true
  short : key.2.length ≤ maxKeyBlob

theorem matchPublicKey_some {s : Str} {key : Str × Str} (h : matchPublicKey s = some key) :
    key.1 ∈ keyTypes ∧ isBlob key.2 = true := by
  rw [matchPublicKey] at h
  split at h
  · cases h
  · rename_i t hfind
    simp only [Option.ite_none_right_eq_some, Bool.and_eq_true, Option.some.injEq] at h
    obtain ⟨⟨hblob, _⟩, rfl⟩ := h
    exact ⟨List.mem_of_find?_eq_some hfind, hblob⟩

theorem normalisePublicKey_ok {text key : Str} (h : normalisePublicKey text = .ok key) :
    ∃ fields, key = keyText fields ∧ IsKey fields := by
  rw [normalisePublicKey] at h
  split at h
  · split at h
    · cases h
    · rename_i fields hmatch
      split_ifs at h with hlong
      cases h
      exact ⟨fields, rfl, (matchPublicKey_some hmatch).1, (matchPublicKey_some hmatch).2,
        Nat.le_of_not_lt hlong⟩
  · cases h

/-- The characters of a key. -/
def isKeyChar (c : Char) : Bool := isBlobChar c || c == '=' || c == '-' || c == '@' || c == '.'

theorem keyChars_of_blob {b : Str} (h : isBlob b = true) : ∀ c ∈ b, isKeyChar c = true := by
  simp only [isBlob, Bool.and_eq_true, List.all_eq_true, beq_iff_eq] at h
  intro c hc
  rw [← List.takeWhile_append_dropWhile (p := isBlobChar) (l := b), List.mem_append] at hc
  rcases hc with hc | hc
  · simp [isKeyChar, List.mem_takeWhile_imp hc]
  · simp [isKeyChar, h.1.2 c hc]

theorem keyChars_of_type {t : Str} (h : t ∈ keyTypes) : ∀ c ∈ t, isKeyChar c = true := by
  have hall : (keyTypes.all fun t => t.all isKeyChar) = true := by decide
  exact List.all_eq_true.mp (List.all_eq_true.mp hall t h)

theorem noSpace_of_isKeyChar {c : Char} (h : isKeyChar c = true) : isSpace c = false := by
  have hnat : (48 ≤ c.toNat ∧ c.toNat ≤ 57) ∨ (64 ≤ c.toNat ∧ c.toNat ≤ 90) ∨
      (97 ≤ c.toNat ∧ c.toNat ≤ 122) ∨ (43 ≤ c.toNat ∧ c.toNat ≤ 47) ∨ c.toNat = 61 := by
    simp only [isKeyChar, isBlobChar, Char.isAlphanum, Char.isAlpha, Bool.or_eq_true,
      beq_iff_eq] at h
    rcases h with (((((((h | h) | h) | rfl) | rfl) | rfl) | rfl) | rfl) | rfl
    · have := toNat_of_isUpper h
      omega
    · have := toNat_of_isLower h
      omega
    · have := toNat_of_isDigit h
      omega
    all_goals decide
  rw [isSpace]
  simp only [Bool.or_eq_false_iff, Bool.and_eq_false_iff, decide_eq_false_iff_not,
    beq_eq_false_iff_ne, ne_eq]
  omega

theorem noBreak_of_noSpace {c : Char} (h : isSpace c = false) : isLineBreak c = false := by
  rw [isSpace] at h
  rw [isLineBreak]
  simp only [Bool.or_eq_false_iff, Bool.and_eq_false_iff, decide_eq_false_iff_not,
    beq_eq_false_iff_ne, ne_eq] at h ⊢
  omega

theorem blob_ne_nil {b : Str} (h : isBlob b = true) : b ≠ [] := by
  rintro rfl
  cases h

theorem strip_keyText {fields : Str × Str} (h : IsKey fields) :
    strip (keyText fields) = keyText fields := by
  have hhead : ∀ c ∈ fields.1, isSpace c = false :=
    fun c hc => noSpace_of_isKeyChar (keyChars_of_type h.type c hc)
  have hlast : ∀ c ∈ fields.2, isSpace c = false :=
    fun c hc => noSpace_of_isKeyChar (keyChars_of_blob h.blob c hc)
  have hl : lstrip (keyText fields) = keyText fields := by
    have hne : fields.1 ≠ [] := by
      intro hnil
      have htype := h.type
      rw [hnil] at htype
      exact absurd htype (by decide)
    rw [lstrip, keyText]
    cases htype : fields.1 with
    | nil => exact absurd htype hne
    | cons c t =>
      have hc : isSpace c = false := hhead c (by rw [htype]; exact .head _)
      rw [List.cons_append, List.dropWhile_cons_of_neg (by simp [hc])]
  rw [strip, hl, rstrip, List.rdropWhile_eq_self_iff]
  intro hne
  have hlastMem : (keyText fields).getLast hne ∈ fields.2 := by
    have hblob := blob_ne_nil h.blob
    simp only [keyText]
    rw [List.getLast_append_of_right_ne_nil _ _ (by simp), List.getLast_cons hblob]
    exact List.getLast_mem hblob
  simp [hlast _ hlastMem]

theorem matchPublicKey_word {type word : Str} (htype : type ∈ keyTypes) (hword : ' ' ∉ word) :
    matchPublicKey (keyText (type, word)) = if isBlob word then some (type, word) else none := by
  have hsplit : ∀ t ∈ keyTypes, ' ' ∉ t := by
    intro t ht hmem
    exact absurd (keyChars_of_type ht _ hmem) (by decide)
  have hfind : keyTypes.find? (fun t => startsWith (keyText (type, word)) (t ++ [' '])) =
      some type := by
    have hself : startsWith (keyText (type, word)) (type ++ [' ']) = true := by
      rw [startsWith, List.isPrefixOf_iff_prefix]
      exact ⟨word, by simp [keyText]⟩
    cases hfound : keyTypes.find? fun t => startsWith (keyText (type, word)) (t ++ [' ']) with
    | none => exact absurd hself (List.find?_eq_none.mp hfound type htype)
    | some t =>
      -- Two types before the same first blank are one type.
      have hstart := List.find?_some hfound
      rw [startsWith, List.isPrefixOf_iff_prefix] at hstart
      obtain ⟨rest, hrest⟩ := hstart
      have hcut : ∀ u v : Str, ' ' ∉ u → (u ++ ' ' :: v).takeWhile (· != ' ') = u := by
        intro u v hu
        have hall : ∀ c ∈ u, (c != ' ') = true := by
          intro c hc
          refine bne_iff_ne.mpr ?_
          rintro rfl
          exact hu hc
        rw [List.takeWhile_append_of_pos hall]
        simp
      have hkey : keyText (type, word) = t ++ ' ' :: rest := by
        rw [← hrest]
        simp
      have htaken := congrArg (List.takeWhile (· != ' ')) hkey
      rw [keyText, hcut _ _ (hsplit _ htype),
        hcut _ _ (hsplit _ (List.mem_of_find?_eq_some hfound))] at htaken
      exact congrArg some htaken.symm
  have hdrop : (keyText (type, word)).drop (type.length + 1) = word := by simp [keyText]
  have hblank : ∀ c ∈ word, (c != ' ') = true := by
    intro c hc
    refine bne_iff_ne.mpr ?_
    rintro rfl
    exact hword hc
  have htake : word.takeWhile (· != ' ') = word := List.takeWhile_eq_self_iff.mpr hblank
  have hrest : word.dropWhile (· != ' ') = [] := List.dropWhile_eq_nil_iff.mpr hblank
  rw [matchPublicKey, hfind]
  simp only [hdrop, htake, hrest, List.all_nil, Bool.and_true]

theorem noSpace_of_isBlob {blob : Str} (h : isBlob blob = true) : ∀ c ∈ blob, isSpace c = false :=
  fun c hc => noSpace_of_isKeyChar (keyChars_of_blob h c hc)

theorem matchPublicKey_keyText {fields : Str × Str} (h : IsKey fields) :
    matchPublicKey (keyText fields) = some fields := by
  have hword : ' ' ∉ fields.2 := fun hc => Bool.false_ne_true (noSpace_of_isBlob h.blob _ hc).symm
  exact (matchPublicKey_word h.type hword).trans (if_pos h.blob)

theorem noBreak_keyText {fields : Str × Str} (h : IsKey fields) :
    ∀ c ∈ keyText fields, isLineBreak c = false := by
  have hkey : ∀ c, isKeyChar c = true → isLineBreak c = false :=
    fun c hc => noBreak_of_noSpace (noSpace_of_isKeyChar hc)
  rw [keyText, List.forall_mem_append, List.forall_mem_cons]
  exact ⟨fun c hc => hkey c (keyChars_of_type h.type c hc), by decide,
    fun c hc => hkey c (keyChars_of_blob h.blob c hc)⟩

theorem normalisePublicKey_line {fields : Str × Str} (h : IsKey fields) :
    normalisePublicKey (universalNewlines (keyText fields ++ ['\n'])) = .ok (keyText fields) := by
  have hstrip := strip_keyText h
  have hne : keyText fields ≠ [] := by simp [keyText]
  rw [universalNewlines_append (noBreak_keyText h), universalNewlines, normalisePublicKey,
    splitlines_append_newline (noBreak_keyText h), splitlines, List.filter_cons_of_pos (by
      rw [hstrip]
      simp [hne])]
  simp only [List.filter_nil, hstrip, matchPublicKey_keyText h, if_neg (Nat.not_lt.mpr h.short)]
  rfl

section Texts

abbrev Bodies := Str → Option Body

def Host.bodies (h : Host) : Bodies := fun path => (h.nodes.lookup path).map Node.body

def followBody (bodies : Bodies) : Nat → Str → Except OsError Body
  | 0, _ => .error .tooManyLinks
  | fuel + 1, path =>
    match bodies path with
    | none => .error .notFound
    | some (.link target) => followBody bodies fuel target
    | some body => .ok body

/-- Whether the links from a path lead past another. -/
def passes (bodies : Bodies) (other : Str) : Nat → Str → Bool
  | 0, _ => false
  | fuel + 1, path =>
    path == other ||
      match bodies path with
      | some (.link target) => passes bodies other fuel target
      | _ => false

/-- `fs.read_text`, by the bodies. -/
def textOf (bodies : Bodies) (path : Str) : Except OsError Str :=
  match followBody bodies Host.maxLinks path with
  | .ok (.file raw) => .ok (universalNewlines raw)
  | .ok _ => .error .isADirectory
  | .error .notFound => .ok []
  | .error e => .error e

variable {h : Host} {bodies bodies' : Bodies} {fuel : Nat} {path other : Str} {body : Body}

theorem followFrom_body (fuel : Nat) (path : Str) :
    (h.followFrom fuel path).map (fun found => found.2.body) = followBody h.bodies fuel path := by
  induction fuel generalizing path with
  | zero => rfl
  | succ fuel ih =>
    rw [Host.followFrom, followBody, Host.bodies]
    cases h.nodes.lookup path with
    | none => rfl
    | some node =>
      obtain ⟨body, uid, gid, mode⟩ := node
      cases body with
      | file raw => rfl
      | dir => rfl
      | link target => exact ih target

theorem readText_eq (h : Host) (path : Str) : h.readText path = textOf h.bodies path := by
  rw [Host.readText, textOf, ← followFrom_body, Host.follow]
  cases h.followFrom Host.maxLinks path with
  | error e => cases e <;> rfl
  | ok found =>
    obtain ⟨found, body, uid, gid, mode⟩ := found
    cases body <;> rfl

theorem followBody_written {raw : Str} (hfile : bodies' other = some (.file raw))
    (hkept : ∀ path body, path ≠ other → bodies path = some body → bodies' path = some body)
    (hok : followBody bodies fuel path = .ok body) :
    followBody bodies' fuel path = .ok body ∨ followBody bodies' fuel path = .ok (.file raw) := by
  induction fuel generalizing path with
  | zero => cases hok
  | succ fuel ih =>
    by_cases hpath : path = other
    · subst hpath
      right
      rw [followBody, hfile]
    · rw [followBody] at hok ⊢
      cases hbody : bodies path with
      | none =>
        rw [hbody] at hok
        cases hok
      | some found =>
        rw [hbody] at hok
        rw [hkept path found hpath hbody]
        cases found with
        | file raw => exact Or.inl hok
        | dir => exact Or.inl hok
        | link target => exact ih hok

theorem followBody_removed (hgone : bodies' other = none)
    (hkept : ∀ path, path ≠ other → bodies' path = bodies path)
    (hok : followBody bodies fuel path = .ok body) :
    followBody bodies' fuel path =
      if passes bodies other fuel path = true then .error .notFound else .ok body := by
  induction fuel generalizing path with
  | zero => cases hok
  | succ fuel ih =>
    by_cases hpath : path = other
    · subst hpath
      rw [followBody, hgone, passes, beq_self_eq_true, Bool.true_or, if_pos rfl]
    · rw [followBody] at hok ⊢
      rw [hkept path hpath, passes, beq_eq_false_iff_ne.mpr hpath, Bool.false_or]
      cases hbody : bodies path with
      | none =>
        rw [hbody] at hok
        cases hok
      | some found =>
        rw [hbody] at hok
        cases found with
        | file raw => simpa using hok
        | dir => simpa using hok
        | link target => exact ih hok

end Texts

section Register

def entryOf (bodies : Bodies) (name : Str) : Except (Failure Refusal) (Str × Str) :=
  if endsWith name pubSuffix then
    match validateStackName (removeSuffix name pubSuffix) with
    | .error reason => .error (.refused (.unusableEntry name reason))
    | .ok _ =>
      match textOf bodies (joinPath slotDir name) with
      | .error e => .error (.os e)
      | .ok text =>
        match normalisePublicKey text with
        | .error reason => .error (.refused (.unusableEntry name reason))
        | .ok key => .ok (removeSuffix name pubSuffix, key)
  else .error (.refused (.notPub name))

/-- What the files of the register say, one after the other. -/
def slotsOf (bodies : Bodies) : List Str → Slots → Except (Failure Refusal) Slots
  | [], slots => .ok slots
  | name :: names, slots =>
    match entryOf bodies name with
    | .error e => .error e
    | .ok entry => slotsOf bodies names (slots.insert entry.1 entry.2)

theorem run_orRefuse {α : Type} (r : Except Refusal α) (h : Host) :
    (orRefuse r).run Host.handle h = (r.mapError .refused, h) := by
  cases r <;> rfl

theorem run_readText (path : Str) (h : Host) :
    (Fs.readText path : FsProg Refusal Str).run Host.handle h =
      ((textOf h.bodies path).mapError .os, h) := by
  rw [Fs.readText, orRaise, run_bind, run_ask]
  simp only [Host.handle, readText_eq]
  cases textOf h.bodies path <;> rfl

theorem readSlot_run (slots : Slots) (name : Str) (h : Host) :
    (readSlot slots name).run Host.handle h =
      ((entryOf h.bodies name).map fun entry => slots.insert entry.1 entry.2, h) := by
  rw [readSlot, entryOf]
  split_ifs with hpub
  · simp only [run_bind, run_orRefuse, unusable, run_readText]
    cases validateStackName (removeSuffix name pubSuffix) with
    | error reason => rfl
    | ok _ =>
      simp only [Except.mapError]
      cases textOf h.bodies (joinPath slotDir name) with
      | error e => rfl
      | ok text =>
        dsimp only
        cases normalisePublicKey text <;> rfl
  · rfl

theorem readSlotsFrom_run (names : List Str) (slots : Slots) (h : Host) :
    (readSlotsFrom names slots).run Host.handle h = (slotsOf h.bodies names slots, h) := by
  induction names generalizing slots with
  | nil => rfl
  | cons name names ih =>
    rw [readSlotsFrom, run_bind, readSlot_run, slotsOf]
    cases entryOf h.bodies name with
    | error e => rfl
    | ok entry => exact ih _

theorem readSlots_run (h : Host) :
    readSlots.run Host.handle h =
      (match h.listdir slotDir with
        | .error e => .error (.os e)
        | .ok names => slotsOf h.bodies (names.mergeSort (· ≤ ·)) ∅, h) := by
  rw [readSlots, Fs.listdir, orRaise, run_bind, run_bind, run_ask]
  simp only [Host.handle]
  cases h.listdir slotDir with
  | error e => rfl
  | ok names => exact readSlotsFrom_run _ _ h

variable {bodies : Bodies} {names : List Str} {slots found : Slots} {name : Str}

theorem entryOf_ok {entry : Str × Str} (h : entryOf bodies name = .ok entry) :
    name = entry.1 ++ pubSuffix ∧ isStackName entry.1 = true ∧
      ∃ fields, entry.2 = keyText fields ∧ IsKey fields := by
  rw [entryOf] at h
  split_ifs at h with hpub
  split at h
  · cases h
  · rename_i hstack
    split at h
    · cases h
    · split at h
      · cases h
      · rename_i key hkey
        cases h
        refine ⟨?_, ?_, normalisePublicKey_ok hkey⟩
        · obtain ⟨stack, rfl⟩ := List.isSuffixOf_iff_suffix.mp hpub
          simp [removeSuffix, hpub]
        · rw [validateStackName] at hstack
          split_ifs at hstack with hvalid
          exact hvalid

theorem slotsOf_ok (h : slotsOf bodies names slots = .ok found) :
    (∀ name ∈ names, ∃ entry, entryOf bodies name = .ok entry) ∧
      ∀ stack key, found.lookup stack = some key → slots.lookup stack = some key ∨
        ∃ name ∈ names, entryOf bodies name = .ok (stack, key) := by
  induction names generalizing slots with
  | nil =>
    cases h
    exact ⟨nofun, fun stack key hkey => Or.inl hkey⟩
  | cons name names ih =>
    rw [slotsOf] at h
    cases hentry : entryOf bodies name with
    | error e =>
      rw [hentry] at h
      cases h
    | ok entry =>
      rw [hentry] at h
      obtain ⟨hnames, hlookup⟩ := ih h
      refine ⟨List.forall_mem_cons.mpr ⟨⟨entry, hentry⟩, hnames⟩, fun stack key hkey => ?_⟩
      rcases hlookup stack key hkey with hinsert | ⟨other, hother, hread⟩
      · by_cases hstack : stack = entry.1
        · subst hstack
          rw [Finmap.lookup_insert] at hinsert
          cases hinsert
          exact Or.inr ⟨name, .head _, hentry⟩
        · rw [Finmap.lookup_insert_of_ne _ hstack] at hinsert
          exact Or.inl hinsert
      · exact Or.inr ⟨other, .tail _ hother, hread⟩

theorem mem_slotsOf (h : slotsOf bodies names slots = .ok found) {stack : Str} :
    stack ∈ found ↔ stack ∈ slots ∨ stack ++ pubSuffix ∈ names := by
  induction names generalizing slots with
  | nil =>
    cases h
    simp
  | cons name names ih =>
    rw [slotsOf] at h
    cases hentry : entryOf bodies name with
    | error e =>
      rw [hentry] at h
      cases h
    | ok entry =>
      rw [hentry] at h
      rw [ih h, Finmap.mem_insert, List.mem_cons, (entryOf_ok hentry).1, List.append_left_inj]
      tauto

theorem slotsOf_of_entries (slots : Slots)
    (h : ∀ name ∈ names, ∃ entry, entryOf bodies name = .ok entry) :
    ∃ found, slotsOf bodies names slots = .ok found := by
  induction names generalizing slots with
  | nil => exact ⟨slots, rfl⟩
  | cons name names ih =>
    obtain ⟨⟨entry, hentry⟩, hnames⟩ := List.forall_mem_cons.mp h
    rw [slotsOf, hentry]
    exact ih _ hnames

theorem slotsOf_refused (slots : Slots)
    (h : ∀ name ∈ names, ∀ e, entryOf bodies name ≠ .error (.os e))
    (hsome : ∃ name ∈ names, ∀ entry, entryOf bodies name ≠ .ok entry) :
    ∃ reason, slotsOf bodies names slots = .error (.refused reason) := by
  induction names generalizing slots with
  | nil =>
    obtain ⟨_, hmem, _⟩ := hsome
    cases hmem
  | cons name names ih =>
    obtain ⟨hname, hnames⟩ := List.forall_mem_cons.mp h
    rw [slotsOf]
    cases hentry : entryOf bodies name with
    | error e =>
      cases e with
      | refused reason => exact ⟨reason, rfl⟩
      | os e => exact absurd hentry (hname e)
    | ok entry =>
      refine ih _ hnames ?_
      obtain ⟨other, hmem, hnone⟩ := hsome
      rcases List.mem_cons.mp hmem with rfl | hmem
      · exact absurd hentry (hnone entry)
      · exact ⟨other, hmem, hnone⟩

end Register

end SharedInfra.DeploySlots
