import SharedInfra.HostInputs.Seeding

/-!
# Seeding shows no value

Two worlds agree (`Agree`) on what the live files, the inputs file and the answers are like, and on
the length of a value that is set.  What a run shows and its exit status are then the same in both,
if the document that is installed reads back in both or in neither (`main_eq_of_agree`): one that
is larger than `maxBytes` is refused.
-/

namespace SharedInfra.HostInputs

open Python

section Statements

/-- What a live home of an input holds, but for the value. -/
inductive SourceShape where
  | absent
  | refused (code : Str)
  | unreadable
  | duplicate
  | blank
  | assigned
  | notCertificate
  | malformed
  | entries (count : Nat)
deriving DecidableEq

def sourceShape (w : World) (source : Source) : SourceShape :=
  match readFile (w.file source.filename) false with
  | .error .notFound => .absent
  | .error (.seed code) => .refused code
  | .error _ => .unreadable
  | .ok text =>
    match source.kind with
    | .env =>
      if isDuplicate text source.name then .duplicate
      else if strip (envValue text source.name) = [] then .blank
      else .assigned
    | .whole =>
      if strip text = [] then .blank
      else if isCertificate text then .assigned
      else .notCertificate
    | _ =>
      if strip text = [] then .blank
      else
        match parseRecipients text with
        | none => .malformed
        | some tenants => .entries tenants.length

/-- A reply without its value. -/
def Reply.shape {α : Type} : Reply α → Reply Unit
  | .given _ => .given ()
  | .empty => .empty
  | .refused why => .refused why
  | .failed => .failed
  | .raised fault => .raised fault

def tenantReplies : List Answer → List (Reply Unit)
  | [] => [.failed]
  | answer :: rest =>
    match tenantReply answer with
    | .given _ => .given () :: tenantReplies rest
    | .refused .privateKey => [.refused .privateKey]
    | .refused why => .refused why :: tenantReplies rest
    | reply => [reply.shape]

/-- What the answers to the prompts for slots are like, with the slots so far. -/
def slotReplies : List Slot → List Answer → List (Reply Unit)
  | _, [] => [.failed]
  | slots, answer :: rest =>
    match slotReply slots answer with
    | .given slot => .given () :: slotReplies (slots ++ [slot]) rest
    | reply => [reply.shape]

def replies (w : World) (key : Str) (answers : List Answer) : List (Reply Unit) :=
  match kindOf key with
  | .whole => [(certificateReply w (answers.headD .failed)).shape]
  | .recipients => tenantReplies answers
  | .slots => slotReplies [] answers
  | _ => [(plainReply (answers.headD .failed)).shape]

/-- What the answers for the inputs are like, one input after the other. -/
def allReplies (w : World) : List Str → List Answer → List (List (Reply Unit))
  | [], _ => []
  | key :: keys, answers =>
    replies w key answers ::
      match (askFor w key answers).ended with
      | .ok (_, rest) => allReplies w keys rest
      | .error _ => []

def asksFor (w : World) (host : Str) : Mode → List Str
  | .fill _ => lacking (liveValues w (inputs host) []).1
  | .set key => [key]

/-- The bytes of the text that `--set` is given. -/
def setLength (w : World) : Mode → Option Nat
  | .fill _ => none
  | .set key =>
    match (askFor w key w.answers).ended with
    | .ok (some (.text value), _) => some (utf8Encode value).length
    | _ => none

variable (codec : JsonCodec) (w w' : World) (host : Str) (mode : Mode)

/-- Two worlds that differ in values only. -/
structure Agree : Prop where
  present : w.present = w'.present
  existing : (loadExisting codec w host).map (fun _ => ()) =
    (loadExisting codec w' host).map fun _ => ()
  sources : ∀ key ∈ inputs host, ∀ source ∈ homes key, sourceShape w source = sourceShape w' source
  answers : allReplies w (asksFor w host mode) w.answers =
    allReplies w' (asksFor w' host mode) w'.answers
  length : setLength w mode = setLength w' mode

/-- The document that a run installs if it comes to that. -/
def document : Mode → Option (List (Str × Json))
  | .fill _ =>
    let live := (liveValues w (inputs host) []).1
    match (askAll w (lacking live) w.answers).ended with
    | .ok (typed, _) => some (ordered host live typed)
    | .error _ => none
  | .set key =>
    match loadExisting codec w host, (askFor w key w.answers).ended with
    | .ok existing, .ok (some value, _) => some (assign existing key value.json)
    | _, _ => none

def readsBack (document : List (Str × Json)) : Option (Except Fault Unit) :=
  (documentText codec document).map fun text => readBack codec document (utf8Encode text)

def SameReadBack : Prop :=
  (document codec w host mode).map (readsBack codec) =
    (document codec w' host mode).map (readsBack codec)

end Statements

section Sources

variable {w w' : World} {key : Str} {keys problems : List Str} {source : Source}
  {places : List Source}

def Found.state : Found → Option Bool
  | .found _ => some true
  | .absent => none
  | .unusable => some false

/-- What is made of a home, by its shape. -/
def verdict (source : Source) : SourceShape → Option Bool × Option Str
  | .absent => (none, none)
  | .refused code => (some false,
      some (source.filename ++ " (".toList ++ (reasons.lookup code).getD [] ++ [')']))
  | .unreadable => (some false, some (source.filename ++ " (link or unreadable)".toList))
  | .duplicate =>
    (some false, some (source.filename ++ ' ' :: source.name ++ " (duplicate)".toList))
  | .blank => (none, none)
  | .assigned => (some true, none)
  | .notCertificate => (some false, some (source.filename ++ " (not a certificate)".toList))
  | .malformed => (some false, some (source.filename ++ " (malformed)".toList))
  | .entries count => (if count = 0 then none else some true, none)

theorem lookUp_verdict (w : World) (source : Source) :
    ((lookUp w source).1.state, (lookUp w source).2) = verdict source (sourceShape w source) := by
  rw [lookUp, sourceShape]
  cases readFile (w.file source.filename) false with
  | error fault => cases fault <;> rfl
  | ok text =>
    dsimp only
    cases source.kind with
    | env =>
      rw [envLookup]
      split_ifs <;> rfl
    | whole => split_ifs <;> rfl
    | recipients | slots | typed =>
      dsimp only
      split_ifs
      · rfl
      · cases parseRecipients text with
        | none => rfl
        | some tenants => cases tenants <;> rfl

theorem lookUp_alike (h : sourceShape w source = sourceShape w' source) :
    (lookUp w source).1.state = (lookUp w' source).1.state ∧
      (lookUp w source).2 = (lookUp w' source).2 := by
  have hboth := (lookUp_verdict w source).trans
    ((congrArg (verdict source) h).trans (lookUp_verdict w' source).symm)
  exact Prod.mk.inj hboth

theorem liveValue_alike (h : ∀ source ∈ places, sourceShape w source = sourceShape w' source)
    (problems : List Str) :
    (liveValue w places problems).1.isSome = (liveValue w' places problems).1.isSome ∧
      (liveValue w places problems).2 = (liveValue w' places problems).2 := by
  induction places generalizing problems with
  | nil => exact ⟨rfl, rfl⟩
  | cons source places ih =>
    obtain ⟨hsource, hplaces⟩ := List.forall_mem_cons.mp h
    obtain ⟨hstate, hnote⟩ := lookUp_alike hsource
    rw [liveValue, liveValue]
    split_ifs with hkind
    · exact ⟨rfl, rfl⟩
    · cases hlook : lookUp w source with
      | mk found note =>
        cases hlook' : lookUp w' source with
        | mk found' note' =>
          rw [hlook, hlook'] at hstate hnote
          obtain rfl : note = note' := hnote
          cases found with
          | found value =>
            cases found' with
            | found value' => exact ⟨rfl, rfl⟩
            | absent => cases hstate
            | unusable => cases hstate
          | absent =>
            cases found' with
            | found value' => cases hstate
            | absent => exact ih hplaces _
            | unusable => cases hstate
          | unusable =>
            cases found' with
            | found value' => cases hstate
            | absent => cases hstate
            | unusable => exact ⟨rfl, rfl⟩

/-- Which inputs have a value. -/
def erased (values : List (Str × Option Value)) : List (Str × Bool) :=
  values.map fun entry => (entry.1, entry.2.isSome)

theorem erased_cons (key : Str) (value : Option Value) (values : List (Str × Option Value)) :
    erased ((key, value) :: values) = (key, value.isSome) :: erased values := rfl

theorem liveValues_cons (w : World) (key : Str) (keys problems : List Str) :
    liveValues w (key :: keys) problems = let found := liveValue w (homes key) problems
      ((key, found.1) :: (liveValues w keys found.2).1, (liveValues w keys found.2).2) := rfl

theorem liveValues_alike
    (h : ∀ key ∈ keys, ∀ source ∈ homes key, sourceShape w source = sourceShape w' source)
    (problems : List Str) :
    erased (liveValues w keys problems).1 = erased (liveValues w' keys problems).1 ∧
      (liveValues w keys problems).2 = (liveValues w' keys problems).2 := by
  induction keys generalizing problems with
  | nil => exact ⟨rfl, rfl⟩
  | cons key keys ih =>
    obtain ⟨hkey, hkeys⟩ := List.forall_mem_cons.mp h
    obtain ⟨hsome, hproblems⟩ := liveValue_alike hkey problems
    obtain ⟨herased, hmore⟩ := ih hkeys (liveValue w (homes key) problems).2
    rw [liveValues_cons, liveValues_cons]
    dsimp only
    rw [← hproblems]
    refine ⟨?_, hmore⟩
    rw [erased_cons, erased_cons, hsome, herased]

theorem having_erased (values : List (Str × Option Value)) :
    having values = ((erased values).filter Prod.snd).map Prod.fst := by
  induction values with
  | nil => rfl
  | cons entry values ih =>
    obtain ⟨key, value⟩ := entry
    cases value with
    | none => exact ih
    | some value => exact congrArg (List.cons key) ih

theorem lacking_erased (values : List (Str × Option Value)) :
    lacking values = ((erased values).filter fun entry => !entry.2).map Prod.fst := by
  induction values with
  | nil => rfl
  | cons entry values ih =>
    obtain ⟨key, value⟩ := entry
    cases value with
    | none => exact congrArg (List.cons key) ih
    | some value => exact ih

theorem lookup_isSome (values : List (Str × Option Value)) (key : Str) :
    (((values.filter fun entry => entry.2.isSome).lookup key).join.isSome = true) ↔
      key ∈ having values := by
  induction values with
  | nil => simp [having]
  | cons entry values ih =>
    obtain ⟨other, value⟩ := entry
    cases value with
    | none => exact ih
    | some value =>
      have hhaving : having ((other, some value) :: values) = other :: having values := rfl
      rw [List.filter_cons_of_pos (by rfl), List.lookup_cons, hhaving, List.mem_cons]
      by_cases hkey : key = other
      · simp [hkey]
      · rw [beq_false_of_ne hkey]
        exact ih.trans (or_iff_right hkey).symm

theorem length_ordered (host : Str) (live typed : List (Str × Option Value)) :
    (ordered host live typed).length =
      (inputs host).countP fun key => decide (key ∈ having (live ++ typed)) := by
  rw [ordered]
  induction inputs host with
  | nil => rfl
  | cons key keys ih =>
    have hkey := lookup_isSome (live ++ typed) key
    rw [List.countP_cons, ← ih]
    cases hvalue : (((live ++ typed).filter fun entry => entry.2.isSome).lookup key).join with
    | none =>
      rw [hvalue] at hkey
      have hnot : key ∉ having (live ++ typed) := fun hmem => by cases hkey.mpr hmem
      rw [List.filterMap_cons_none (by rw [hvalue]; rfl), decide_eq_false hnot]
      rfl
    | some value =>
      rw [hvalue] at hkey
      rw [List.filterMap_cons_some (by rw [hvalue]; rfl), decide_eq_true (hkey.mp rfl)]
      rfl

end Sources

section Answers

variable {w w' : World} {key : Str} {keys : List Str} {answers answers' : List Answer}

theorem shape_cases {α : Type} {r r' : Reply α} (h : r.shape = r'.shape) :
    (∃ v v', r = .given v ∧ r' = .given v') ∨ ((∀ v, r ≠ .given v) ∧ r' = r) := by
  cases r with
  | given v =>
    cases r' with
    | given v' => exact Or.inl ⟨v, v', rfl, rfl⟩
    | _ => cases h
  | _ =>
    refine Or.inr ⟨fun v hv => (by cases hv), ?_⟩
    cases r' <;> cases h
    rfl

/-- The number of entries of a value that is a list. -/
def Value.count : Value → Option Nat
  | .text _ => none
  | .tenants entries => some entries.length
  | .slots entries => some entries.length

def Asked.outcome (asked : Asked (Option Value)) : Except Fault (Option (Option Nat)) :=
  asked.ended.map fun given => given.1.map Value.count

/-- Two askings that differ in the value only. -/
def SameAsking (asked asked' : Asked (Option Value)) : Prop :=
  asked.shown = asked'.shown ∧ asked.outcome = asked'.outcome

theorem SameAsking.after {asked asked' : Asked (Option Value)} (h : SameAsking asked asked')
    (shown : List Shown) : SameAsking (asked.after shown) (asked'.after shown) :=
  ⟨congrArg (shown ++ ·) h.1, h.2⟩

theorem askOnce_alike {prompt : Str} {reply reply' : Answer → Reply Str}
    (h : (reply (answers.headD .failed)).shape = (reply' (answers'.headD .failed)).shape) :
    SameAsking (askOnce prompt reply answers) (askOnce prompt reply' answers') := by
  rw [askOnce, askOnce]
  rcases shape_cases h with ⟨v, v', hv, hv'⟩ | ⟨hnot, heq⟩
  · rw [hv, hv']
    exact ⟨rfl, rfl⟩
  · rw [heq]
    cases hreply : reply (answers.headD .failed) with
    | given v => exact absurd hreply (hnot v)
    | empty => exact ⟨rfl, rfl⟩
    | refused why => exact ⟨rfl, rfl⟩
    | failed => exact ⟨rfl, rfl⟩
    | raised fault => exact ⟨rfl, rfl⟩

theorem head_tenantReplies (answer : Answer) (rest : List Answer) :
    (tenantReplies (answer :: rest)).head? = some (tenantReply answer).shape := by
  rw [tenantReplies]
  cases tenantReply answer with
  | refused why => cases why <;> rfl
  | _ => rfl

theorem eq_failed_of_shape {α : Type} {r : Reply α} (h : r.shape = .failed) : r = .failed := by
  cases r with
  | failed => rfl
  | _ => cases h

theorem askTenants_alike {tenants tenants' : List Tenant}
    (hlength : tenants.length = tenants'.length)
    (h : tenantReplies answers = tenantReplies answers') :
    SameAsking (askTenants key tenants answers) (askTenants key tenants' answers') := by
  induction answers generalizing answers' tenants tenants' with
  | nil =>
    cases answers' with
    | nil =>
      rw [askTenants, askTenants, hlength]
      exact ⟨rfl, rfl⟩
    | cons answer' rest' =>
      have hhead := head_tenantReplies answer' rest'
      rw [← h] at hhead
      have hreply := eq_failed_of_shape (Option.some.inj hhead).symm
      rw [askTenants, askTenants, hlength, hreply]
      exact ⟨rfl, rfl⟩
  | cons answer rest ih =>
    have hhead := head_tenantReplies answer rest
    cases answers' with
    | nil =>
      rw [h] at hhead
      have hreply := eq_failed_of_shape (Option.some.inj hhead).symm
      rw [askTenants, askTenants, hlength, hreply]
      exact ⟨rfl, rfl⟩
    | cons answer' rest' =>
      rw [h, head_tenantReplies] at hhead
      rw [tenantReplies, tenantReplies] at h
      rw [askTenants, askTenants, hlength]
      rcases shape_cases (Option.some.inj hhead).symm with ⟨v, v', hv, hv'⟩ | ⟨hnot, heq⟩
      · rw [hv, hv'] at h ⊢
        have hmore : (tenants ++ [v]).length = (tenants' ++ [v']).length := by
          rw [List.length_append, List.length_append, hlength]
          rfl
        exact (ih hmore (List.cons.inj h).2).after _
      · rw [heq] at h ⊢
        cases hreply : tenantReply answer with
        | given v => exact absurd hreply (hnot v)
        | empty =>
          refine ⟨rfl, ?_⟩
          cases tenants with
          | nil =>
            obtain rfl := List.length_eq_zero_iff.mp hlength.symm
            rfl
          | cons tenant tenants =>
            cases tenants' with
            | nil => cases hlength
            | cons tenant' tenants' =>
              exact congrArg (fun n => Except.ok (some (some n))) hlength
        | refused why =>
          rw [hreply] at h
          cases why with
          | privateKey => exact ⟨rfl, rfl⟩
          | malformed => exact (ih hlength (List.cons.inj h).2).after _
          | repeated => exact (ih hlength (List.cons.inj h).2).after _
        | failed => exact ⟨rfl, rfl⟩
        | raised fault => exact ⟨rfl, rfl⟩

theorem head_slotReplies (slots : List Slot) (answer : Answer) (rest : List Answer) :
    (slotReplies slots (answer :: rest)).head? = some (slotReply slots answer).shape := by
  rw [slotReplies]
  cases slotReply slots answer <;> rfl

theorem askSlots_alike {slots slots' : List Slot} (hlength : slots.length = slots'.length)
    (h : slotReplies slots answers = slotReplies slots' answers') :
    SameAsking (askSlots key slots answers) (askSlots key slots' answers') := by
  induction answers generalizing answers' slots slots' with
  | nil =>
    cases answers' with
    | nil =>
      rw [askSlots, askSlots, hlength]
      exact ⟨rfl, rfl⟩
    | cons answer' rest' =>
      have hhead := head_slotReplies slots' answer' rest'
      rw [← h] at hhead
      have hreply := eq_failed_of_shape (Option.some.inj hhead).symm
      rw [askSlots, askSlots, hlength, hreply]
      exact ⟨rfl, rfl⟩
  | cons answer rest ih =>
    have hhead := head_slotReplies slots answer rest
    cases answers' with
    | nil =>
      rw [h] at hhead
      have hreply := eq_failed_of_shape (Option.some.inj hhead).symm
      rw [askSlots, askSlots, hlength, hreply]
      exact ⟨rfl, rfl⟩
    | cons answer' rest' =>
      rw [h, head_slotReplies] at hhead
      rw [slotReplies, slotReplies] at h
      rw [askSlots, askSlots, hlength]
      rcases shape_cases (Option.some.inj hhead).symm with ⟨v, v', hv, hv'⟩ | ⟨hnot, heq⟩
      · rw [hv, hv'] at h ⊢
        have hmore : (slots ++ [v]).length = (slots' ++ [v']).length := by
          rw [List.length_append, List.length_append, hlength]
          rfl
        exact (ih hmore (List.cons.inj h).2).after _
      · rw [heq]
        cases hreply : slotReply slots answer with
        | given v => exact absurd hreply (hnot v)
        | empty =>
          refine ⟨rfl, ?_⟩
          cases slots with
          | nil =>
            obtain rfl := List.length_eq_zero_iff.mp hlength.symm
            rfl
          | cons slot slots =>
            cases slots' with
            | nil => cases hlength
            | cons slot' slots' =>
              exact congrArg (fun n => Except.ok (some (some n))) hlength
        | refused why => exact ⟨rfl, rfl⟩
        | failed => exact ⟨rfl, rfl⟩
        | raised fault => exact ⟨rfl, rfl⟩

theorem askFor_alike (h : replies w key answers = replies w' key answers') :
    SameAsking (askFor w key answers) (askFor w' key answers') := by
  rw [replies, replies] at h
  rw [askFor, askFor]
  cases hkind : kindOf key with
  | whole =>
    rw [hkind] at h
    exact askOnce_alike (List.cons.inj h).1
  | recipients =>
    rw [hkind] at h
    exact askTenants_alike rfl h
  | slots =>
    rw [hkind] at h
    exact askSlots_alike rfl h
  | env =>
    rw [hkind] at h
    exact askOnce_alike (List.cons.inj h).1
  | typed =>
    rw [hkind] at h
    exact askOnce_alike (List.cons.inj h).1

/-- How the askings end for several inputs, without the values. -/
def outcomes (asked : Asked (List (Str × Option Value))) : Except Fault (List (Str × Bool)) :=
  asked.ended.map fun given => erased given.1

theorem askAll_alike (h : allReplies w keys answers = allReplies w' keys answers') :
    (askAll w keys answers).shown = (askAll w' keys answers').shown ∧
      outcomes (askAll w keys answers) = outcomes (askAll w' keys answers') := by
  induction keys generalizing answers answers' with
  | nil => exact ⟨rfl, rfl⟩
  | cons key keys ih =>
    rw [allReplies, allReplies] at h
    obtain ⟨hkey, hkeys⟩ := List.cons.inj h
    obtain ⟨hshown, houtcome⟩ := askFor_alike hkey
    rw [askAll, askAll]
    rw [Asked.outcome, Asked.outcome] at houtcome
    cases hended : (askFor w key answers).ended with
    | error fault =>
      cases hended' : (askFor w' key answers').ended with
      | error fault' =>
        rw [hended, hended'] at houtcome
        cases houtcome
        exact ⟨hshown, rfl⟩
      | ok given' =>
        rw [hended, hended'] at houtcome
        cases houtcome
    | ok given =>
      cases hended' : (askFor w' key answers').ended with
      | error fault' =>
        rw [hended, hended'] at houtcome
        cases houtcome
      | ok given' =>
        rw [hended, hended'] at houtcome hkeys
        obtain ⟨hmore, hend⟩ := ih hkeys
        have hsome : given.1.isSome = given'.1.isSome := by
          have hcount := congrArg Option.isSome (Except.ok.inj houtcome)
          rwa [Option.isSome_map, Option.isSome_map] at hcount
        refine ⟨?_, ?_⟩
        · dsimp only
          rw [hshown, hmore]
        · rw [outcomes, outcomes] at hend ⊢
          dsimp only
          cases hall : (askAll w keys given.2).ended with
          | error fault =>
            rw [hall] at hend
            cases hall' : (askAll w' keys given'.2).ended with
            | error fault' =>
              rw [hall'] at hend
              cases hend
              rfl
            | ok more' =>
              rw [hall'] at hend
              cases hend
          | ok more =>
            rw [hall] at hend
            cases hall' : (askAll w' keys given'.2).ended with
            | error fault' =>
              rw [hall'] at hend
              cases hend
            | ok more' =>
              rw [hall'] at hend
              have herased : erased more.1 = erased more'.1 := Except.ok.inj hend
              refine congrArg Except.ok ?_
              change erased ((key, given.1) :: more.1) = erased ((key, given'.1) :: more'.1)
              rw [erased_cons, erased_cons, hsome, herased]

end Answers

section Installing

variable {codec : JsonCodec} {machine : Machine} {w w' : World} {host key : Str}
  {d d' : List (Str × Json)}

theorem install_alike (machine : Machine) (h : readsBack codec d = readsBack codec d')
    (replace : Bool) :
    install codec machine d replace = install codec machine d' replace := by
  rw [readsBack, readsBack] at h
  rw [install, install]
  cases htext : documentText codec d with
  | none =>
    rw [htext] at h
    rw [Option.map_eq_none_iff.mp h.symm]
  | some text =>
    rw [htext] at h
    obtain ⟨text', htext', hback⟩ := Option.map_eq_some_iff.mp h.symm
    rw [htext']
    dsimp only
    cases machine.remove with
    | some name => rfl
    | none =>
      dsimp only
      rw [putInPlace, putInPlace, hback]

theorem having_append (values more : List (Str × Option Value)) :
    having (values ++ more) = having values ++ having more := by
  rw [having, List.filter_append, List.map_append]
  rfl

theorem report_alike {live live' typed typed' : List (Str × Option Value)} {problems : List Str}
    (hlive : erased live = erased live') (htyped : erased typed = erased typed') :
    report host live typed problems = report host live' typed' problems := by
  rw [report, report, having_erased live, having_erased live', having_erased typed,
    having_erased typed', lacking_erased typed, lacking_erased typed', hlive, htyped]

theorem length_ordered_alike {live live' typed typed' : List (Str × Option Value)}
    (hlive : erased live = erased live') (htyped : erased typed = erased typed') :
    (ordered host live typed).length = (ordered host live' typed').length := by
  rw [length_ordered, length_ordered, having_append, having_append, having_erased live,
    having_erased live', having_erased typed, having_erased typed', hlive, htyped]

theorem runFill_alike {replace : Bool} (h : Agree codec w w' host (.fill replace))
    (hback : SameReadBack codec w w' host (.fill replace)) :
    runFill codec machine w host replace = runFill codec machine w' host replace := by
  rw [runFill, runFill, h.present]
  split_ifs with hthere
  · rfl
  · obtain ⟨hlive, hproblems⟩ := liveValues_alike h.sources []
    have hanswers := h.answers
    have hasks : lacking (liveValues w (inputs host) []).1 =
        lacking (liveValues w' (inputs host) []).1 := by
      rw [lacking_erased, lacking_erased, hlive]
    rw [asksFor, asksFor, hasks] at hanswers
    obtain ⟨hshown, hended⟩ := askAll_alike hanswers
    rw [SameReadBack, document, document, hasks] at hback
    dsimp only at hback ⊢
    rw [hasks, hproblems]
    rw [outcomes, outcomes] at hended
    cases hall : (askAll w (lacking (liveValues w' (inputs host) []).1) w.answers).ended with
    | error fault =>
      rw [hall] at hended
      cases hall' : (askAll w' (lacking (liveValues w' (inputs host) []).1) w'.answers).ended with
      | error fault' =>
        rw [hall'] at hended
        cases hended
        dsimp only
        rw [hshown]
      | ok typed' =>
        rw [hall'] at hended
        cases hended
    | ok typed =>
      rw [hall] at hended hback
      cases hall' : (askAll w' (lacking (liveValues w' (inputs host) []).1) w'.answers).ended with
      | error fault' =>
        rw [hall'] at hended
        cases hended
      | ok typed' =>
        rw [hall'] at hended hback
        have htyped : erased typed.1 = erased typed'.1 := Except.ok.inj hended
        have hinstall := install_alike machine (Option.some.inj hback) replace
        dsimp only
        rw [hshown, report_alike hlive htyped, lacking_erased typed.1, lacking_erased typed'.1,
          htyped, hinstall, length_ordered_alike hlive htyped]

theorem sizeOf_alike {value value' : Value} (hcount : value.count = value'.count)
    (hlength : ∀ text text', value = .text text → value' = .text text' →
      (utf8Encode text).length = (utf8Encode text').length) : sizeOf value = sizeOf value' := by
  cases value with
  | text text =>
    cases value' with
    | text text' => rw [sizeOf, sizeOf, hlength text text' rfl rfl]
    | tenants _ => cases hcount
    | slots _ => cases hcount
  | tenants entries =>
    cases value' with
    | text _ => cases hcount
    | tenants _ => rw [sizeOf, sizeOf, Option.some.inj hcount]
    | slots _ => rw [sizeOf, sizeOf, Option.some.inj hcount]
  | slots entries =>
    cases value' with
    | text _ => cases hcount
    | tenants _ => rw [sizeOf, sizeOf, Option.some.inj hcount]
    | slots _ => rw [sizeOf, sizeOf, Option.some.inj hcount]

theorem runSet_alike (h : Agree codec w w' host (.set key))
    (hback : SameReadBack codec w w' host (.set key)) :
    runSet codec machine w host key = runSet codec machine w' host key := by
  rw [runSet, runSet]
  by_cases hkey : key ∉ inputs host
  · rw [if_pos hkey, if_pos hkey]
  · rw [if_neg hkey, if_neg hkey]
    have hexisting := h.existing
    have hreplies := (List.cons.inj h.answers).1
    obtain ⟨hshown, houtcome⟩ := askFor_alike hreplies
    have hlength := h.length
    rw [setLength, setLength] at hlength
    rw [SameReadBack, document, document] at hback
    rw [Asked.outcome, Asked.outcome] at houtcome
    cases hload : loadExisting codec w host with
    | error fault =>
      rw [hload] at hexisting
      cases hload' : loadExisting codec w' host with
      | error fault' =>
        rw [hload'] at hexisting
        cases hexisting
        rfl
      | ok existing' =>
        rw [hload'] at hexisting
        cases hexisting
    | ok existing =>
      rw [hload] at hexisting hback
      cases hload' : loadExisting codec w' host with
      | error fault' =>
        rw [hload'] at hexisting
        cases hexisting
      | ok existing' =>
        rw [hload'] at hback
        dsimp only
        cases hended : (askFor w key w.answers).ended with
        | error fault =>
          rw [hended] at houtcome
          cases hended' : (askFor w' key w'.answers).ended with
          | error fault' =>
            rw [hended'] at houtcome
            cases houtcome
            dsimp only
            rw [hshown]
          | ok given' =>
            rw [hended'] at houtcome
            cases houtcome
        | ok given =>
          rw [hended] at houtcome hback hlength
          cases hended' : (askFor w' key w'.answers).ended with
          | error fault' =>
            rw [hended'] at houtcome
            cases houtcome
          | ok given' =>
            rw [hended'] at houtcome hback hlength
            have hcounts := Except.ok.inj houtcome
            obtain ⟨value, rest⟩ := given
            obtain ⟨value', rest'⟩ := given'
            cases value with
            | none =>
              cases value' with
              | none =>
                dsimp only
                rw [hshown]
              | some value' => cases hcounts
            | some value =>
              cases value' with
              | none => cases hcounts
              | some value' =>
                have hsize := sizeOf_alike (Option.some.inj hcounts) (by
                  rintro text text' rfl rfl
                  exact Option.some.inj hlength)
                have hinstall :=
                  install_alike machine (Option.some.inj hback) true
                dsimp only at hinstall ⊢
                rw [hshown, hsize, hinstall]

end Installing

section Sizes

def textMembersOf : Json → List (Str × Str)
  | .object members => members.filterMap fun entry =>
    match entry.2 with
    | .string text => some (entry.1, text)
    | _ => none
  | _ => []

def textCodec : JsonCodec where
  limits := ⟨1000, 4300, by decide⟩
  dumps document := some (dumpTexts (textMembersOf document))
  same a b := decide (textMembersOf a = textMembersOf b)

/-- A host where no step fails. -/
def soundMachine : Machine := ⟨0, [.ok ⟨true, 0, 0o755⟩], none, none, none, false, none, none⟩

/-- A host without live files, and what is typed there. -/
def typedWorld (value : Str) : World := ⟨fun _ => .absent, fun _ => .absent, [.text value]⟩

def edgetFill : Option (Str × Mode) := some ("edget".toList, .fill true)

def jumpUser : Str := "ci_jump_user"

variable {value value' : Str}

/-- A value of plain characters without blanks. -/
def IsPlainWord (value : Str) : Prop := value ≠ [] ∧ IsPlainText value ∧ ' ' ∉ value

theorem noSpace_of_plainWord (h : IsPlainWord value) : ∀ c ∈ value, isSpace c = false := by
  intro c hc
  obtain ⟨hlow, hhigh, -⟩ := h.2.1 c hc
  have hblank : c.toNat ≠ 32 := by
    intro heq
    have hc' : c = ' ' := Char.ext (UInt32.toNat_inj.mp heq)
    exact h.2.2 (hc' ▸ hc)
  rw [isSpace]
  simp only [Bool.or_eq_false_iff, Bool.and_eq_false_iff, decide_eq_false_iff_not,
    beq_eq_false_iff_ne]
  omega

theorem plainReply_word (h : IsPlainWord value) : plainReply (.text value) = .given value := by
  have hspace := noSpace_of_plainWord h
  have hstrip : strip value = value := strip_trimmed (trimmed_of_noSpace hspace)
  have hbreak : (value.contains '\n' || value.contains '\r') = false := by
    rw [Bool.or_eq_false_iff, List.contains_eq_mem, List.contains_eq_mem]
    refine ⟨decide_eq_false fun hmem => ?_, decide_eq_false fun hmem => ?_⟩
    · cases hspace _ hmem
    · cases hspace _ hmem
  rw [plainReply, Answer.reply, hstrip, if_neg h.1, hbreak]
  rfl

theorem homes_jumpUser : homes jumpUser = [⟨.typed, [], []⟩] := by rfl

theorem kindOf_jumpUser : kindOf jumpUser = .typed := by
  rw [kindOf, homes_jumpUser]
  rfl

theorem askFor_word (h : IsPlainWord value) : askFor (typedWorld value) jumpUser [.text value] =
    ⟨[.prompt "ci_jump_user: ".toList], .ok (some (.text value), [])⟩ := by
  rw [askFor, kindOf_jumpUser]
  dsimp only
  rw [askOnce, List.headD_cons, plainReply_word h]
  rfl

theorem liveValues_typed (value : Str) :
    liveValues (typedWorld value) (inputs "edget".toList) [] = ([(jumpUser, none)], []) := by
  have hinputs : inputs "edget".toList = [jumpUser] := rfl
  rw [hinputs, liveValues, homes_jumpUser]
  rfl

theorem askAll_word (h : IsPlainWord value) : askAll (typedWorld value) [jumpUser] [.text value] =
    ⟨[.prompt "ci_jump_user: ".toList], .ok ([(jumpUser, some (.text value))], [])⟩ := by
  rw [askAll, askFor_word h]
  rfl

theorem agree_typed (h : IsPlainWord value) (h' : IsPlainWord value') :
    Agree textCodec (typedWorld value) (typedWorld value') "edget".toList (.fill true) := by
  have hasks : ∀ value, asksFor (typedWorld value) "edget".toList (.fill true) = [jumpUser] := by
    intro value
    rw [asksFor, liveValues_typed]
    rfl
  have hreplies : ∀ value, IsPlainWord value →
      allReplies (typedWorld value) [jumpUser] (typedWorld value).answers = [[.given ()]] := by
    intro value hvalue
    rw [allReplies, replies, kindOf_jumpUser]
    dsimp only [typedWorld]
    rw [List.headD_cons, plainReply_word hvalue]
    have hask := askFor_word hvalue
    rw [typedWorld] at hask
    rw [hask]
    rfl
  refine ⟨rfl, rfl, fun key _ source _ => rfl, ?_, rfl⟩
  rw [hasks, hasks, hreplies value h, hreplies value' h']

theorem document_typed (h : IsPlainWord value) :
    document textCodec (typedWorld value) "edget".toList (.fill true) =
      some [(jumpUser, .string value)] := by
  have hask := askAll_word h
  rw [document, liveValues_typed]
  dsimp only
  have hlacking : lacking [(jumpUser, none)] = [jumpUser] := rfl
  have hanswers : (typedWorld value).answers = [.text value] := rfl
  rw [hlacking, hanswers, hask]
  rfl

theorem length_le_utf8Encode (text : Str) : text.length ≤ (utf8Encode text).length := by
  induction text with
  | nil => exact Nat.zero_le _
  | cons c text ih =>
    have hsize := Char.utf8Size_pos c
    rw [utf8Encode_cons, List.length_append, String.length_utf8EncodeChar, List.length_cons]
    omega

def typedText (value : Str) : Str := dumpTexts [(jumpUser, value)] ++ ['\n']

theorem readsBack_typed (value : Str) : readsBack textCodec [(jumpUser, .string value)] =
    some (readBack textCodec [(jumpUser, .string value)] (utf8Encode (typedText value))) := rfl

theorem readBack_small (h : IsPlainWord value)
    (hsize : (utf8Encode (typedText value)).length ≤ maxBytes) :
    readBack textCodec [(jumpUser, .string value)] (utf8Encode (typedText value)) = .ok () := by
  have hread : readFile (.opened ⟨true, 0, 0, 0o600⟩ (utf8Encode (typedText value))) true =
      .ok (typedText value) := by
    rw [readFile]
    dsimp only
    rw [if_neg (by decide), if_neg (by decide), if_neg (by decide), if_neg (by decide),
      if_neg (Nat.not_lt.mpr hsize), utf8Decode_encode]
  have hplain : ∀ entry ∈ [(jumpUser, value)], IsPlainText entry.1 ∧ IsPlainText entry.2 := by
    intro entry hentry
    obtain rfl := List.mem_singleton.mp hentry
    have hname : IsPlainText jumpUser := by decide
    exact ⟨hname, h.2.1⟩
  rw [readBack, hread]
  dsimp only
  rw [typedText, loads_dumpTexts hplain]
  dsimp only
  rw [if_pos]
  rw [textCodec]
  exact decide_eq_true rfl

theorem readBack_large (hsize : maxBytes < value.length) :
    readBack textCodec [(jumpUser, .string value)] (utf8Encode (typedText value)) =
      .error (.seed "read-back".toList) := by
  have hlength : value.length ≤ (typedText value).length := by
    have hquoted : value.length ≤ (jsonString value).length := by
      have hescape : ∀ c, 1 ≤ (jsonEscape c).length := by
        intro c
        rw [jsonEscape]
        split
        · exact Nat.succ_pos _
        · split_ifs
          · exact Nat.succ_pos _
          · exact Nat.succ_pos _
          · rw [List.length_append]
            exact Nat.le_add_right_of_le (Nat.succ_pos _)
      have hall : ∀ text : Str, text.length ≤ (text.flatMap jsonEscape).length := by
        intro text
        induction text with
        | nil => exact Nat.zero_le _
        | cons c text ih =>
          have hc := hescape c
          rw [List.flatMap_cons, List.length_append, List.length_cons]
          omega
      have hvalue := hall value
      rw [jsonString, List.length_append, List.length_cons]
      omega
    have htext : typedText value = ("\x7b\n  ".toList ++ jsonString jumpUser ++ ": ".toList) ++
        (jsonString value ++ "\n\x7d\n".toList) := by
      rw [typedText, dumpTexts, if_neg (List.cons_ne_nil _ _)]
      simp [joinWith, dumpMember]
    have hinner : (jsonString value).length ≤
        (jsonString value ++ "\n\x7d\n".toList).length := by
      rw [List.length_append]
      exact Nat.le_add_right _ _
    rw [htext, List.length_append]
    omega
  have hbytes := length_le_utf8Encode (typedText value)
  have hread : readFile (.opened ⟨true, 0, 0, 0o600⟩ (utf8Encode (typedText value))) true =
      .error (.seed "src-type".toList) := by
    rw [readFile]
    dsimp only
    rw [if_neg (by decide), if_neg (by decide), if_neg (by decide), if_neg (by decide),
      if_pos (by omega)]
  rw [readBack, hread]

/-- The exit status, by how the installation ends. -/
def exitOf : Except Fault Unit → Nat
  | .ok _ => 0
  | .error .interrupt => 130
  | .error _ => 1

theorem status_typed (h : IsPlainWord value) (fault : Except Fault Unit)
    (hback : readBack textCodec [(jumpUser, .string value)] (utf8Encode (typedText value)) =
      fault) :
    (main textCodec soundMachine (typedWorld value) edgetFill).2 = exitOf fault := by
  have hinstall : install textCodec soundMachine [(jumpUser, .string value)] true = fault := by
    rw [← hback]
    rfl
  have hready : refuseUnlessReady soundMachine "edget".toList = .ok () := by rfl
  have hask := askAll_word h
  have hlacking : lacking [(jumpUser, none)] = [jumpUser] := rfl
  have hanswers : (typedWorld value).answers = [.text value] := rfl
  have hordered : ordered "edget".toList [(jumpUser, none)] [(jumpUser, some (.text value))] =
      [(jumpUser, .string value)] := rfl
  have hnone : lacking [(jumpUser, some (.text value))] = [] := rfl
  rw [main.eq_def, edgetFill]
  dsimp only
  rw [hready]
  dsimp only
  rw [runFill, liveValues_typed]
  dsimp only
  rw [hlacking, hanswers, hask]
  dsimp only
  rw [hnone, hordered, hinstall]
  cases fault with
  | ok _ => rfl
  | error fault => cases fault <;> rfl

theorem plainWord_replicate (n : Nat) : IsPlainWord (List.replicate (n + 1) 'a') := by
  refine ⟨List.cons_ne_nil _ _, fun c hc => ?_, fun hmem => ?_⟩
  · obtain rfl := List.eq_of_mem_replicate hc
    decide
  · cases List.eq_of_mem_replicate hmem

end Sizes

end SharedInfra.HostInputs
