import SharedInfra.DeploySlots.RefusalSafety
import SharedInfra.DeploySlots.KeyGrammar
import SharedInfra.Python.Splitting
import SharedInfra.Sequences.FirstMatch

/-!
# The register and `authorized_keys` agree

What a completed grant or revoke leaves: a register that can be read, and an `authorized_keys` that
reconciles with it and that rendering again would leave as it is (`settled_of_calls`).
-/

namespace SharedInfra.DeploySlots

open Python Effects Prog Sequences

section Text

variable {stack : Str} {fields : Str × Str} {slots : Slots}

/-- What is registered is a key in its shape, under a name that is valid. -/
def WellKept (slots : Slots) : Prop :=
  ∀ stack key, slots.lookup stack = some key →
    isStackName stack = true ∧ ∃ fields, key = keyText fields ∧ IsKey fields

theorem isStackChar_of_mem (h : isStackName stack = true) : ∀ c ∈ stack, isStackChar c = true := by
  cases stack with
  | nil => exact nofun
  | cons d stack =>
    simp only [isStackName, isStackStart, Bool.and_eq_true, List.all_eq_true] at h
    refine List.forall_mem_cons.mpr ⟨?_, h.1.2⟩
    simp [isStackChar, h.1.1]

theorem noSpace_of_stackName (h : isStackName stack = true) : ∀ c ∈ stack, isSpace c = false := by
  intro c hc
  have hchar := isStackChar_of_mem h c hc
  refine noSpace_of_isKeyChar ?_
  simp only [isStackChar, isKeyChar, isBlobChar, Char.isAlphanum, Char.isAlpha] at hchar ⊢
  grind

theorem none_of_all {p : Char → Bool} {s : Str} (h : (s.all fun c => !p c) = true) :
    ∀ c ∈ s, p c = false :=
  fun c hc => by simpa using List.all_eq_true.mp h c hc

/-- A slot's line is text of one line, which no blank begins or ends, and its last word names it. -/
structure IsSlotLine (stack line : Str) : Prop where
  managed : managedSlot line = some stack
  stripped : strip line = line
  oneLine : ∀ c ∈ line, isLineBreak c = false

theorem isSlotLine (hstack : isStackName stack = true) (hkey : IsKey fields) :
    IsSlotLine stack (slotLineText stack (keyText fields)) := by
  have hname := noSpace_of_stackName hstack
  have hspace : ∀ c ∈ managedMarker ++ stack, isSpace c = false :=
    List.forall_mem_append.mpr ⟨none_of_all (by decide), hname⟩
  have hne : managedMarker ++ stack ≠ [] := List.append_ne_nil_of_left_ne_nil (by decide) _
  have hend : ∃ front, slotLineText stack (keyText fields) =
      front ++ ' ' :: (managedMarker ++ stack) := by
    unfold slotLineText
    rw [List.append_assoc, List.cons_append]
    exact ⟨_, rfl⟩
  obtain ⟨front, hfront⟩ := hend
  refine ⟨?_, ?_, ?_⟩
  · rw [managedSlot, hfront, splitWords_append_cons rfl, splitWords_word ⟨hne, hspace⟩,
      List.getLast?_concat]
    simp [startsWith]
  · refine strip_trimmed ⟨by rintro c ⟨⟩; rfl, fun c hc => hspace c ?_⟩
    rw [hfront, List.append_cons, List.getLast?_append_of_ne_nil _ hne] at hc
    exact List.mem_of_getLast? hc
  · have hbreak : ∀ c ∈ stack, isLineBreak c = false := fun c hc => noBreak_of_noSpace (hname c hc)
    unfold slotLineText
    simp only [List.forall_mem_append, List.forall_mem_cons]
    refine ⟨⟨⟨⟨⟨⟨⟨⟨⟨?_, ?_⟩, ?_⟩, ?_⟩, ?_⟩, hbreak⟩, ?_⟩, noBreak_keyText hkey⟩, rfl, ?_⟩, hbreak⟩
    all_goals exact none_of_all (by decide)

variable {existing text : Str} {expected lines : List (Str × Str)} {seen kept rest : List Str}

theorem reconcileFrom_unmanaged (h : ∀ line ∈ kept, managedSlot line = none) :
    reconcileFrom expected (kept ++ rest) seen = reconcileFrom expected rest seen := by
  induction kept with
  | nil => rfl
  | cons line kept ih =>
    obtain ⟨hline, hkept⟩ := List.forall_mem_cons.mp h
    rw [List.cons_append, reconcileFrom, hline]
    exact ih hkept

theorem reconcileFrom_lines (hslot : ∀ e ∈ lines, IsSlotLine e.1 e.2)
    (hexpected : ∀ e ∈ lines, expected.lookup e.1 = some e.2)
    (hnodup : (lines.map Prod.fst).Nodup) (hseen : ∀ e ∈ lines, e.1 ∉ seen) :
    reconcileFrom expected (lines.map Prod.snd) seen = .ok () := by
  induction lines generalizing seen with
  | nil => rfl
  | cons e lines ih =>
    obtain ⟨he, hslot⟩ := List.forall_mem_cons.mp hslot
    obtain ⟨hlookup, hexpected⟩ := List.forall_mem_cons.mp hexpected
    obtain ⟨hnew, hseen⟩ := List.forall_mem_cons.mp hseen
    obtain ⟨hfirst, hnodup⟩ := List.nodup_cons.mp hnodup
    rw [List.map_cons, reconcileFrom, he.managed]
    simp only [hlookup, he.stripped, ne_eq, not_true_eq_false, if_false, if_neg hnew]
    refine ih hslot hexpected hnodup fun e' he' hmem => ?_
    rcases List.mem_cons.mp hmem with heq | hmem
    · exact hfirst (heq ▸ List.mem_map_of_mem he')
    · exact hseen e' he' hmem

theorem nodup_items (slots : Slots) : (slots.items.map Prod.fst).Nodup := by
  have hsub : (slots.items.map Prod.fst).Sublist slots.stacks := by
    rw [Slots.items]
    induction slots.stacks with
    | nil => exact List.Sublist.refl _
    | cons stack others ih =>
      rw [List.filterMap_cons]
      cases slots.lookup stack with
      | none => exact ih.cons _
      | some key => exact ih.cons_cons _
  exact hsub.nodup (Finset.sort_nodup _ _)

/-- The slots with their lines. -/
def linesOf (slots : Slots) : List (Str × Str) :=
  slots.items.map fun slot => (slot.1, slotLineText slot.1 slot.2)

theorem slotLines_eq (h : WellKept slots) : slotLines slots = .ok (linesOf slots) := by
  rw [slotLines, linesOf, mapM_eq_ok_iff, List.forall₂_map_right_iff, List.forall₂_same]
  rintro ⟨stack, key⟩ hmem
  obtain ⟨hstack, fields, rfl, hkey⟩ := h stack key (mem_items.mp hmem)
  show (do return (stack, ← slotLine stack (keyText fields))) = _
  rw [slotLine_ok hstack hkey]
  rfl

theorem universalNewlines_unlines {lines : List Str}
    (h : ∀ line ∈ lines, ∀ c ∈ line, isLineBreak c = false) :
    universalNewlines (unlines lines) = unlines lines := by
  induction lines with
  | nil => rfl
  | cons line lines ih =>
    obtain ⟨hline, hlines⟩ := List.forall_mem_cons.mp h
    rw [unlines, universalNewlines_append hline, ih hlines]

/-- The lines no slot owns, without the blank ones at the end. -/
def ownLines (text : Str) : List Str := dropTrailingBlank (unmanaged (splitlines text))

/-- The text is reconciled with the slots, with these lines before theirs, and stays as it is. -/
structure Rendered (own : List Str) (slots : Slots) (text : Str) : Prop where
  reconciles : reconcile slots text = .ok ()
  lines : splitlines text = own ++ (linesOf slots).map Prod.snd
  own : ownLines text = own
  stays : renderAuthorizedKeys text slots = .ok text
  newlines : universalNewlines text = text

theorem rendered (h : WellKept slots) (htext : renderAuthorizedKeys existing slots = .ok text) :
    Rendered (ownLines existing) slots text := by
  have hslot : ∀ e ∈ linesOf slots, IsSlotLine e.1 e.2 := by
    intro e he
    obtain ⟨slot, hmem, rfl⟩ := List.mem_map.mp he
    obtain ⟨hstack, fields, heq, hkey⟩ := h _ _ (mem_items.mp hmem)
    rw [heq]
    exact isSlotLine hstack hkey
  have hnodup : ((linesOf slots).map Prod.fst).Nodup := by
    rw [linesOf, List.map_map]
    exact nodup_items slots
  have hkept : ∀ line ∈ ownLines existing,
      managedSlot line = none ∧ line ∈ splitlines existing := by
    intro line hline
    have hmem := (List.rdropWhile_prefix _ _).subset hline
    simpa [unmanaged, and_comm] using hmem
  have hrender : ∀ text, renderAuthorizedKeys text slots =
      .ok (unlines (ownLines text ++ (linesOf slots).map Prod.snd)) := by
    intro text
    rw [renderAuthorizedKeys, slotLines_eq h]
    rfl
  rw [hrender] at htext
  obtain rfl := Except.ok.inj htext
  have hbreak : ∀ line ∈ ownLines existing ++ (linesOf slots).map Prod.snd,
      ∀ c ∈ line, isLineBreak c = false := by
    intro line hline
    rcases List.mem_append.mp hline with hline | hline
    · exact noBreak_of_mem_splitlines existing line (hkept line hline).2
    · obtain ⟨e, he, rfl⟩ := List.mem_map.mp hline
      exact (hslot e he).oneLine
  have hlines := splitlines_unlines hbreak
  have hown : ownLines (unlines (ownLines existing ++ (linesOf slots).map Prod.snd)) =
      ownLines existing := by
    have hslots : unmanaged ((linesOf slots).map Prod.snd) = [] := by
      refine List.filter_eq_nil_iff.mpr fun line hline => ?_
      obtain ⟨e, he, rfl⟩ := List.mem_map.mp hline
      simp [(hslot e he).managed]
    have hself : unmanaged (ownLines existing) = ownLines existing :=
      List.filter_eq_self.mpr fun line hline => by rw [(hkept line hline).1]; rfl
    rw [ownLines, hlines, unmanaged, List.filter_append, ← unmanaged, ← unmanaged, hslots, hself,
      List.append_nil]
    exact List.rdropWhile_idempotent _ _
  refine ⟨?_, hlines, hown, by rw [hrender, hown], universalNewlines_unlines hbreak⟩
  rw [reconcile, slotLines_eq h]
  show reconcileFrom (linesOf slots) (splitlines (unlines _)) [] = .ok ()
  rw [hlines, reconcileFrom_unmanaged fun line hline => (hkept line hline).1]
  exact reconcileFrom_lines hslot (fun e he => lookup_of_mem hnodup he) hnodup
    fun _ _ => List.not_mem_nil

end Text

section Files

variable {h h' : Host} {stack name key text publicKeyText : Str} {slots slots' : Slots}
  {fields : Str × Str} {own names : List Str} {bodies bodies' : Bodies}

/-- The register is a directory of files, or not there, and `authorized_keys` is a file too. -/
structure PlainFiles (h : Host) : Prop where
  slot : ∀ name target, h.bodies (joinPath slotDir name) ≠ some (.link target)
  keys : ∀ target, h.bodies authorizedKeys ≠ some (.link target)
  within : h.bodies slotDir = none → ∀ name, h.bodies (joinPath slotDir name) = none

theorem textOf_congr {path : Str} (hsame : bodies' path = bodies path)
    (hplain : ∀ target, bodies path ≠ some (.link target)) :
    textOf bodies' path = textOf bodies path := by
  rw [textOf, textOf, Host.maxLinks, followBody, followBody, hsame]
  cases hbody : bodies path with
  | none => rfl
  | some body =>
    cases body with
    | link target => exact absurd hbody (hplain target)
    | _ => rfl

theorem noSlash_of_stackName (hstack : isStackName stack = true) : '/' ∉ stack ++ pubSuffix := by
  rw [List.mem_append, not_or]
  exact ⟨fun hslash => absurd (isStackChar_of_mem hstack _ hslash) (by decide), by decide⟩

theorem lookup_slotsOf (h : slotsOf bodies names ∅ = .ok slots) :
    slots.lookup stack = some key ↔
      stack ++ pubSuffix ∈ names ∧ entryOf bodies (stack ++ pubSuffix) = .ok (stack, key) := by
  have hsome : ∀ found, slots.lookup stack = some found →
      stack ++ pubSuffix ∈ names ∧ entryOf bodies (stack ++ pubSuffix) = .ok (stack, found) := by
    intro found hfound
    rcases (slotsOf_ok h).2 stack found hfound with hempty | ⟨name, hname, hentry⟩
    · simp at hempty
    · obtain rfl := (entryOf_ok hentry).1
      exact ⟨hname, hentry⟩
  refine ⟨hsome key, fun ⟨hname, hentry⟩ => ?_⟩
  obtain ⟨found, hfound⟩ := Finmap.mem_iff.mp ((mem_slotsOf h).mpr (Or.inr hname))
  rw [hfound]
  rw [(hsome found hfound).2] at hentry
  cases hentry
  rfl

theorem readSlots_ok (hread : readSlots.run Host.handle h = (.ok slots, h')) :
    h' = h ∧ ∃ names, h.listdir slotDir = .ok names ∧
      slotsOf h.bodies (names.mergeSort (· ≤ ·)) ∅ = .ok slots := by
  rw [readSlots_run] at hread
  obtain ⟨hslots, rfl⟩ := Prod.mk.inj hread
  cases hlist : h.listdir slotDir with
  | error e =>
    rw [hlist] at hslots
    cases hslots
  | ok names =>
    rw [hlist] at hslots
    exact ⟨rfl, names, rfl, hslots⟩

theorem mem_listdir (hplain : PlainFiles h) (hlist : h.listdir slotDir = .ok names) :
    name ∈ names ↔ h.bodies (joinPath slotDir name) ≠ none ∧ '/' ∉ name ∧ name ≠ [] := by
  refine ⟨fun hname => ?_, fun ⟨hbody, hname⟩ => ?_⟩
  · rw [← mem_nodes_iff]
    exact mem_of_mem_listdir hlist hname
  · rw [Host.listdir] at hlist
    split at hlist
    · rename_i habsent
      exact absurd (hplain.within (by rw [Host.bodies, habsent]; rfl) name) hbody
    · split_ifs at hlist
      cases hlist
      exact mem_childNames.mpr ⟨mem_nodes_iff.mpr hbody, hname⟩

theorem body_of_entryOf {entry : Str × Str} (h : entryOf bodies name = .ok entry) :
    bodies (joinPath slotDir name) ≠ none := by
  intro hnone
  obtain ⟨_, _, text, htext, hread⟩ := entryOf_text h
  rw [textOf, Host.maxLinks, followBody, hnone] at htext
  cases htext
  cases hread

/-- The register holds what its files say, each for itself. -/
theorem lookup_readSlots (hplain : PlainFiles h)
    (hread : readSlots.run Host.handle h = (.ok slots, h')) :
    slots.lookup stack = some key ↔
      entryOf h.bodies (stack ++ pubSuffix) = .ok (stack, key) := by
  obtain ⟨rfl, names, hlist, hslots⟩ := readSlots_ok hread
  rw [lookup_slotsOf hslots, List.mem_mergeSort, mem_listdir hplain hlist, and_iff_right_iff_imp]
  intro hentry
  exact ⟨body_of_entryOf hentry, noSlash_of_stackName (entryOf_ok hentry).2.1, by simp [pubSuffix]⟩

theorem wellKept (hread : readSlots.run Host.handle h = (.ok slots, h')) : WellKept slots := by
  obtain ⟨rfl, names, hlist, hslots⟩ := readSlots_ok hread
  intro stack key hkey
  exact (entryOf_ok ((lookup_slotsOf hslots).mp hkey).2).2

/-- Of the register and `authorized_keys` no more than one file is another. -/
structure Rewritten (stack : Str) (h h' : Host) : Prop where
  dir : h'.bodies slotDir = some .dir
  keys : h'.bodies authorizedKeys = h.bodies authorizedKeys
  slot : ∀ name, name ≠ stack ++ pubSuffix →
    h'.bodies (joinPath slotDir name) = h.bodies (joinPath slotDir name)
  plain : ∀ target, h'.bodies (slotPath stack) ≠ some (.link target)

theorem Rewritten.plainFiles (hnew : Rewritten stack h h') (hplain : PlainFiles h) :
    PlainFiles h' := by
  refine ⟨fun name target => ?_, fun target => ?_, fun hnone => ?_⟩
  · by_cases hname : name = stack ++ pubSuffix
    · subst hname
      exact hnew.plain target
    · rw [hnew.slot name hname]
      exact hplain.slot name target
  · rw [hnew.keys]
    exact hplain.keys target
  · rw [hnew.dir] at hnone
    cases hnone

theorem Rewritten.lookup (hnew : Rewritten stack h h') (hplain : PlainFiles h)
    (hread : readSlots.run Host.handle h = (.ok slots, h))
    (hread' : readSlots.run Host.handle h' = (.ok slots', h')) {other : Str}
    (hother : other ≠ stack) : slots'.lookup other = slots.lookup other := by
  refine Option.ext fun key => ?_
  have hsame : entryOf h'.bodies (other ++ pubSuffix) = entryOf h.bodies (other ++ pubSuffix) := by
    have hname : other ++ pubSuffix ≠ stack ++ pubSuffix := by simpa using hother
    rw [entryOf, entryOf, textOf_congr (hnew.slot _ hname) (hplain.slot _)]
  rw [lookup_readSlots (hnew.plainFiles hplain) hread', hsame, lookup_readSlots hplain hread]

theorem joinPath_ne_authorizedKeys (name : Str) : joinPath slotDir name ≠ authorizedKeys := by
  intro heq
  have hprefix : slotDir.isPrefixOf authorizedKeys = true :=
    List.isPrefixOf_iff_prefix.mpr ⟨'/' :: name, heq⟩
  exact absurd hprefix (by decide)

theorem Written.rewritten (hwritten : Written stack key h h') (hdir : h'.bodies slotDir = some .dir) :
    Rewritten stack h h' := by
  -- What was made on the way is the register's directory, or stands above it.
  have hsame : ∀ path, path ≠ slotPath stack → path ∉ ancestors slotDir ++ [slotDir] →
      h'.bodies path = h.bodies path := by
    intro path hne hout
    cases hbody : h.bodies path with
    | some body => exact hwritten.kept path body hne hbody
    | none =>
      by_contra hsome
      exact hout (hwritten.new path hne hbody hsome)
  refine ⟨hdir, hsame _ (joinPath_ne_authorizedKeys _).symm (by decide),
    fun name hname => ?_, fun target => ?_⟩
  · refine hsame _ (by simpa [joinPath, slotPath] using hname) fun hmem => ?_
    have hshort : (joinPath slotDir name).length ≤ slotDir.length := by
      rcases List.mem_append.mp hmem with habove | hself
      · exact (length_of_mem_ancestors habove).le
      · rw [List.mem_singleton.mp hself]
    simp [joinPath] at hshort
  · rw [hwritten.file]
    intro heq
    cases heq

theorem makedirs_dir {path : Str} {mode : Mode} (hok : (h.makedirs path mode).1 = .ok ()) :
    (h.makedirs path mode).2.bodies path = some .dir := by
  rw [Host.makedirs] at hok ⊢
  cases hlookup : h.nodes.lookup path with
  | some node =>
    rw [hlookup] at hok
    dsimp only at hok ⊢
    split_ifs at hok with hdir
    exact isDir_iff.mp hdir
  | none =>
    rw [hlookup] at hok
    dsimp only at hok ⊢
    split_ifs at hok ⊢
    rw [bodies_put, if_pos rfl]

theorem enterSlot_dir (hrun : (enterSlot stack key).run Host.handle h = (.ok (), h')) :
    h'.bodies slotDir = some .dir := by
  obtain ⟨_, hardened, _, hrest⟩ := of_run_bind_ok hrun
  obtain ⟨_, made, hmake, hrest⟩ := of_run_bind_ok hrest
  obtain ⟨_, owned, hown, hrest⟩ := of_run_bind_ok hrest
  obtain ⟨_, closed, hclose, hwrite⟩ := of_run_bind_ok hrest
  have hask := orRaise_ok hmake
  rw [run_ask] at hask
  obtain ⟨hok, hmade⟩ := Prod.mk.inj hask
  have hdir := makedirs_dir (Except.ok.inj hok)
  obtain rfl := bodies_replaceText hwrite
  rw [bodies_put, if_neg (slotPath_ne_slotDir stack),
    (moved (sameBodies_chmod _ _) hclose).1, (moved (sameBodies_chown _ _ _) hown).1, ← hmade]
  exact hdir

/-- What a call asks for. -/
inductive Call where
  | grant (stack publicKeyText : Str) (adoptExistingStack : Bool)
  | revoke (stack : Str)

def Call.prog : Call → FsProg Refusal Unit
  | .grant stack publicKeyText adoptExistingStack =>
    DeploySlots.grant stack publicKeyText adoptExistingStack
  | .revoke stack => DeploySlots.revoke stack

/-- What a call makes of the slots. -/
def Call.apply (slots : Slots) : Call → Slots
  | .grant stack publicKeyText _ =>
    match normalisePublicKey publicKeyText with
    | .ok key => slots.insert stack key
    | .error _ => slots
  | .revoke stack => slots.erase stack

theorem grantChecks_key {found : Str × Slots} {adopt : Bool}
    (hrun : (grantChecks stack publicKeyText adopt).run Host.handle h = (.ok found, h')) :
    normalisePublicKey publicKeyText = .ok found.1 := by
  obtain ⟨_, first, _, hrest⟩ := of_run_bind_ok hrun
  obtain ⟨key, second, hsecond, hrest⟩ := of_run_bind_ok hrest
  rw [run_orRefuse] at hsecond
  obtain ⟨hkey, rfl⟩ := Prod.mk.inj hsecond
  obtain ⟨_, _, _, hrest⟩ := of_run_bind_ok hrest
  obtain ⟨_, _, _, hrest⟩ := of_run_bind_ok hrest
  obtain ⟨_, _, _, hrest⟩ := of_run_bind_ok hrest
  obtain ⟨_, _, _, hrest⟩ := of_run_bind_ok hrest
  obtain ⟨_, _, _, hrest⟩ := of_run_bind_ok hrest
  cases hrest
  cases hnormal : normalisePublicKey publicKeyText with
  | error reason =>
    rw [hnormal] at hkey
    cases hkey
  | ok found =>
    rw [hnormal] at hkey
    cases hkey
    rfl

/-- A call that completes has changed one file of the register, and then published the rest. -/
theorem prog_ok {call : Call} (hplain : PlainFiles h)
    (hread : readSlots.run Host.handle h = (.ok slots, h))
    (hrun : call.prog.run Host.handle h = (.ok (), h')) :
    ∃ stack mid, Rewritten stack h mid ∧ publish.run Host.handle mid = (.ok (), h') ∧
      ∀ slots', readSlots.run Host.handle mid = (.ok slots', mid) → slots' = call.apply slots := by
  cases call with
  | grant stack publicKeyText adoptExistingStack =>
    rw [Call.prog, grant_eq] at hrun
    obtain ⟨found, mid, hwrites, hrest⟩ := of_run_bind_ok hrun
    obtain ⟨_, mid', hreport, hpublish⟩ := of_run_bind_ok hrest
    rw [run_orRefuse] at hreport
    obtain ⟨_, rfl⟩ := Prod.mk.inj hreport
    obtain ⟨found', first, hchecks, hafter⟩ := of_run_bind_ok hwrites
    obtain ⟨_, second, henter, hreturn⟩ := of_run_bind_ok hafter
    cases hreturn
    have hnormal := grantChecks_key hchecks
    obtain ⟨rfl, hstack, ⟨fields, hfound, hkey⟩, -⟩ := grantChecks_ok hchecks
    have hwritten := (enterSlot_ok henter).1
    have hnew := hwritten.rewritten (enterSlot_dir henter)
    refine ⟨stack, mid, hnew, hpublish, fun slots' hread' => Finmap.ext_lookup fun other => ?_⟩
    simp only [Call.apply, hnormal]
    by_cases hother : other = stack
    · subst hother
      rw [Finmap.lookup_insert, lookup_readSlots (hnew.plainFiles hplain) hread', hfound]
      have htext : textOf mid.bodies (joinPath slotDir (other ++ pubSuffix)) =
          .ok (universalNewlines (keyText fields ++ ['\n'])) := by
        have hfile : mid.bodies (joinPath slotDir (other ++ pubSuffix)) = _ := hwritten.file
        rw [textOf, Host.maxLinks, followBody, hfile, hfound]
      have hentry := entryOf_of_text (List.isSuffixOf_iff_suffix.mpr (List.suffix_append other _))
        (by rwa [removeSuffix_append]) htext (normalisePublicKey_line hkey)
      rwa [removeSuffix_append] at hentry
    · rw [Finmap.lookup_insert_of_ne _ hother]
      exact hnew.lookup hplain hread hread' hother
  | revoke stack =>
    rw [Call.prog, revoke_eq] at hrun
    obtain ⟨_, mid, hwrites, hpublish⟩ := of_run_bind_ok hrun
    obtain ⟨hgone, hkept, -, -, -, names, slots₀, hlist, hslots, hmem⟩ :=
      revokeWrites_ok hwrites
    have hlisted : stack ++ pubSuffix ∈ names :=
      List.mem_mergeSort.mp (((mem_slotsOf hslots).mp hmem).resolve_left Finmap.notMem_empty)
    have hdir : mid.bodies slotDir = some .dir := by
      rw [hkept _ (slotPath_ne_slotDir stack)]
      rw [Host.listdir] at hlist
      split at hlist
      · cases hlist
        cases hlisted
      · split_ifs at hlist with hdir
        exact isDir_iff.mp hdir
    have hnew : Rewritten stack h mid :=
      ⟨hdir, hkept _ (joinPath_ne_authorizedKeys _).symm,
        fun name hname => hkept _ (by simpa [joinPath, slotPath] using hname),
        fun target => by rw [hgone]; exact (Option.some_ne_none _).symm⟩
    refine ⟨stack, mid, hnew, hpublish, fun slots' hread' => Finmap.ext_lookup fun other => ?_⟩
    rw [Call.apply]
    by_cases hother : other = stack
    · subst hother
      rw [Finmap.lookup_erase, Option.eq_none_iff_forall_ne_some]
      intro key hkey
      exact body_of_entryOf ((lookup_readSlots (hnew.plainFiles hplain) hread').mp hkey) hgone
    · rw [Finmap.lookup_erase_ne hother]
      exact hnew.lookup hplain hread hread' hother

theorem readSlots_of_dir (hplain : PlainFiles h) (hdir : h.bodies slotDir = some .dir)
    (hentries : ∀ name, h.bodies (joinPath slotDir name) ≠ none → '/' ∉ name → name ≠ [] →
      ∃ entry, entryOf h.bodies name = .ok entry) :
    ∃ slots, readSlots.run Host.handle h = (.ok slots, h) := by
  have hlist : h.listdir slotDir = .ok (h.childNames slotDir) := by
    rw [Host.listdir]
    cases hlookup : h.nodes.lookup slotDir with
    | none =>
      rw [Host.bodies, hlookup] at hdir
      cases hdir
    | some node =>
      dsimp only
      rw [if_pos (isDir_iff.mpr hdir)]
  have hall : ∀ name ∈ (h.childNames slotDir).mergeSort (· ≤ ·),
      ∃ entry, entryOf h.bodies name = .ok entry := by
    intro name hname
    obtain ⟨hbody, hslash, hne⟩ := (mem_listdir hplain hlist).mp (List.mem_mergeSort.mp hname)
    exact hentries name hbody hslash hne
  obtain ⟨slots, hslots⟩ := slotsOf_of_entries ∅ hall
  exact ⟨slots, by rw [readSlots_run, hlist, ← hslots]⟩

/-- The register holds these slots, and `authorized_keys` has one line for each, after its own. -/
structure Settled (own : List Str) (slots : Slots) (h : Host) : Prop where
  plain : PlainFiles h
  register : readSlots.run Host.handle h = (.ok slots, h)
  keys : ∃ text, h.readText authorizedKeys = .ok text ∧ Rendered own slots text

theorem settled_of_publish (hplain : PlainFiles h) (hdir : h.bodies slotDir = some .dir)
    (htext : h.readText authorizedKeys = .ok text)
    (hrun : publish.run Host.handle h = (.ok (), h')) :
    ∃ slots, readSlots.run Host.handle h = (.ok slots, h) ∧ Settled (ownLines text) slots h' := by
  obtain ⟨slots, mid, hread, hwrite⟩ := of_run_bind_ok hrun
  obtain ⟨rfl, names, hlist, hslots⟩ := readSlots_ok hread
  obtain ⟨existing, first, hexisting, hrest⟩ := of_run_bind_ok hwrite
  rw [run_readText, ← readText_eq, htext] at hexisting
  cases hexisting
  obtain ⟨rendering, second, hrender, hrest⟩ := of_run_bind_ok hrest
  obtain ⟨gid, third, hgid, hput⟩ := of_run_bind_ok hrest
  obtain ⟨-, rfl⟩ := accountGid_ok hgid
  have hbodies := bodies_put (h := third) authorizedKeys ⟨.file rendering, 0, gid, authorizedKeysMode⟩
  rw [← bodies_replaceText hput] at hbodies
  rw [run_orRefuse] at hrender
  cases hrendered : renderAuthorizedKeys text slots with
  | error reason =>
    rw [hrendered] at hrender
    cases hrender
  | ok result =>
    rw [hrendered] at hrender
    cases hrender
    have hafter := rendered (wellKept hread) hrendered
    have hslot : ∀ name, h'.bodies (joinPath slotDir name) = mid.bodies (joinPath slotDir name) :=
      fun name => by rw [hbodies, if_neg (joinPath_ne_authorizedKeys name)]
    have hkeys : h'.bodies authorizedKeys = some (.file rendering) := by rw [hbodies, if_pos rfl]
    have hdir' : h'.bodies slotDir = some .dir := by rw [hbodies, if_neg (by decide), hdir]
    have hplain' : PlainFiles h' := by
      refine ⟨fun name => ?_, ?_, ?_⟩
      · rw [hslot]
        exact hplain.slot name
      · rw [hkeys]
        exact nofun
      · rw [hdir']
        exact nofun
    have hentry : ∀ name, entryOf h'.bodies name = entryOf mid.bodies name := fun name => by
      rw [entryOf, entryOf, textOf_congr (hslot name) (hplain.slot name)]
    obtain ⟨slots', hread'⟩ := readSlots_of_dir hplain' hdir' fun name hbody hslash hne => by
      rw [hslot] at hbody
      rw [hentry]
      exact (slotsOf_ok hslots).1 name
        (List.mem_mergeSort.mpr ((mem_listdir hplain hlist).mpr ⟨hbody, hslash, hne⟩))
    have hsame : slots' = slots := by
      refine Finmap.ext_lookup fun stack => Option.ext fun key => ?_
      rw [lookup_readSlots hplain' hread', hentry, lookup_readSlots hplain hread]
    refine ⟨slots, hread, hplain', hsame ▸ hread', rendering, ?_, hafter⟩
    rw [readText_eq, textOf, Host.maxLinks, followBody, hkeys]
    exact congrArg Except.ok hafter.newlines

/-- The calls complete, one after the other. -/
def Complete : List Call → Host → Host → Prop
  | [], h, h' => h' = h
  | call :: calls, h, h' =>
    ∃ mid, call.prog.run Host.handle h = (.ok (), mid) ∧ Complete calls mid h'

theorem settled_of_call {call : Call} (hplain : PlainFiles h)
    (hread : readSlots.run Host.handle h = (.ok slots, h))
    (htext : h.readText authorizedKeys = .ok text)
    (hrun : call.prog.run Host.handle h = (.ok (), h')) :
    Settled (ownLines text) (call.apply slots) h' := by
  obtain ⟨stack, mid, hnew, hpublish, hslots⟩ := prog_ok hplain hread hrun
  have htext' : mid.readText authorizedKeys = .ok text := by
    rw [readText_eq, textOf_congr hnew.keys hplain.keys, ← readText_eq, htext]
  obtain ⟨slots', hread', hsettled⟩ :=
    settled_of_publish (hnew.plainFiles hplain) hnew.dir htext' hpublish
  rw [← hslots slots' hread']
  exact hsettled

/-- Completed calls make of the register what they make of the slots, and of `authorized_keys`
its own lines and one line for each slot. -/
theorem settled_of_calls {calls : List Call} (hplain : PlainFiles h)
    (hread : readSlots.run Host.handle h = (.ok slots, h))
    (htext : h.readText authorizedKeys = .ok text) (hsome : calls ≠ [])
    (hrun : Complete calls h h') :
    Settled (ownLines text) (calls.foldl Call.apply slots) h' := by
  induction calls generalizing h slots text with
  | nil => exact absurd rfl hsome
  | cons call calls ih =>
    obtain ⟨mid, hcall, hcalls⟩ := hrun
    have hmid := settled_of_call hplain hread htext hcall
    cases calls with
    | nil =>
      obtain rfl := hcalls
      exact hmid
    | cons next calls =>
      obtain ⟨text', htext', hrendered⟩ := hmid.keys
      have hlast := ih hmid.plain hmid.register htext' (List.cons_ne_nil _ _) hcalls
      rwa [hrendered.own] at hlast

end Files

section Granted

def blogKey : Str := "ssh-ed25519 AAAA"

theorem plainFiles_fresh : PlainFiles freshHost := by
  have hslot : ∀ name, freshHost.bodies (joinPath slotDir name) = none := by
    intro name
    by_contra hsome
    have hhome : ∀ path ∈ freshHost.nodes.keys, slotDir.isPrefixOf path = false := by decide
    have hself : slotDir.isPrefixOf (joinPath slotDir name) = true :=
      List.isPrefixOf_iff_prefix.mpr (List.prefix_append _ _)
    rw [hhome _ (Finmap.mem_keys.mpr (mem_nodes_iff.mpr hsome))] at hself
    cases hself
  refine ⟨fun name => by rw [hslot]; exact nofun, ?_, fun _ => hslot⟩
  have hkeys : freshHost.bodies authorizedKeys = none := by decide
  rw [hkeys]
  exact nofun

theorem enterSlot_fresh : ∃ h', (enterSlot "blog" blogKey).run Host.handle freshHost = (.ok (), h') ∧
    h'.readText authorizedKeys = .ok [] ∧ h'.accounts deployAccount = some 1000 ∧
    h'.isDir (dirname authorizedKeys) = true ∧ h'.isDir authorizedKeys = false := by
  have hneeds : (forEach [deployHome, deploySshDir] needPath).run Host.handle freshHost =
      (.ok (), freshHost) :=
    Prod.ext (by decide) (reads_forEach reads_needPath _)
  have hgid : (accountGid deployAccount).run Host.handle freshHost = (.ok 1000, freshHost) :=
    Prod.ext (by decide) (reads_accountGid _ _)
  have hdirs : (forEach [deployHome, deploySshDir] (hardenDirectory 1000)).run Host.handle
      freshHost = (.ok (), ((forEach [deployHome, deploySshDir] (hardenDirectory 1000)).run
        Host.handle freshHost).2) :=
    Prod.ext (by decide) rfl
  have hkeys : ((forEach [deployHome, deploySshDir] (hardenDirectory 1000)).run
      Host.handle freshHost).2.nodes.keys = freshHost.nodes.keys := by decide
  rw [enterSlot, hardenDeployPaths]
  simp only [bind_assoc]
  rw [run_bind_ok hneeds, run_bind_ok hgid, run_bind_ok hdirs, Fs.walk, run_bind, run_ask]
  simp only [Host.handle]
  rw [pathsBelow_of_keys hkeys, List.mergeSort_singleton]
  exact ⟨_, Prod.ext (by decide) rfl, by decide, by decide, by decide, by decide⟩

theorem grant_fresh : ∃ h', (grant "blog" blogKey false).run Host.handle freshHost = (.ok (), h') := by
  obtain ⟨mid, henter, htext, hgid, hdir, hfile⟩ := enterSlot_fresh
  have hchecks : (grantChecks "blog" blogKey false).run Host.handle freshHost =
      (.ok (blogKey, ∅), freshHost) :=
    Prod.ext (by decide +kernel) (reads_grantChecks _ _ _ _)
  have hwrites : (grantWrites "blog" blogKey false).run Host.handle freshHost =
      (.ok (blogKey, ∅), mid) := by
    rw [grantWrites, run_bind_ok hchecks, run_bind_ok henter]
    rfl
  have hreport : reportGranted ((∅ : Slots).lookup ("blog" : Str)) blogKey = .ok () := by decide
  have hkey : IsKey ("ssh-ed25519", "AAAA") := ⟨by decide, by decide, by decide⟩
  have hwritten := (enterSlot_ok henter).1
  have hnew := hwritten.rewritten (enterSlot_dir henter)
  obtain ⟨slots, hread⟩ := readSlots_of_dir (hnew.plainFiles plainFiles_fresh) hnew.dir
    fun name hbody hslash hne => by
      by_cases hname : name = ("blog" : Str) ++ pubSuffix
      · rw [hname]
        exact entryOf_self hkey (by decide) hwritten.file
      · rw [hnew.slot name hname] at hbody
        exact absurd (plainFiles_fresh.within (by decide) name) hbody
  obtain ⟨-, names, -, hslots⟩ := readSlots_ok hread
  obtain ⟨text, hrender⟩ := renderAuthorizedKeys_ok [] hslots
  refine ⟨mid.put authorizedKeys ⟨.file text, 0, 1000, authorizedKeysMode⟩, ?_⟩
  rw [grant_eq, run_bind_ok hwrites, run_bind, run_orRefuse, hreport]
  simp only [Except.mapError, publish]
  rw [run_bind_ok hread, writeAuthorizedKeys, run_bind, run_readText, ← readText_eq, htext]
  simp only [Except.mapError]
  rw [run_bind, run_orRefuse, hrender]
  simp only [Except.mapError, accountGid, Fs.accountGid, bind_assoc]
  rw [run_bind, run_ask]
  simp only [Host.handle, hgid, pure_bind]
  rw [Fs.replaceText, orRaise, run_bind, run_ask]
  simp only [Host.handle, Host.replaceText, hdir, hfile]
  rfl

theorem settled_of_calls_fresh : ∃ h',
    Settled [] ((∅ : Slots).insert "blog" blogKey) h' := by
  obtain ⟨h', hrun⟩ := grant_fresh
  refine ⟨h', ?_⟩
  have hread : readSlots.run Host.handle freshHost = (.ok ∅, freshHost) :=
    Prod.ext (by decide +kernel) (reads_readSlots _)
  have htext : freshHost.readText authorizedKeys = .ok [] := by decide
  have hcalls : Complete [.grant "blog" blogKey false] freshHost h' := ⟨h', hrun, rfl⟩
  have h := settled_of_calls plainFiles_fresh hread htext (List.cons_ne_nil _ _) hcalls
  have hnormal : normalisePublicKey blogKey = .ok blogKey := by decide
  have hown : ownLines [] = [] := by decide
  simpa [Call.apply, hnormal, hown] using h

end Granted

end SharedInfra.DeploySlots
