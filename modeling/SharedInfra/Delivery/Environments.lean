import SharedInfra.Delivery.Caller
import SharedInfra.Python.IpRoundTrip
import SharedInfra.Sequences.FirstMatch

/-!
# Which jobs can release the approval

What a workflow file says to GitHub: its jobs (`IsJob`), the values at which a job names an
environment (`NamesAt`), and the names that such a value can come to (`ReadsAs`).  Where the check
finds nothing, no other workflow's job comes to the environment of the delivery.
-/

namespace SharedInfra.Delivery

open Python Sequences

/-- The expressions an environment can be chosen by. -/
inductive Expr where
  | output (job name : Str)
  | literal (s : Str)
  | equal (a b : Expr)
  | both (a b : Expr)
  | either (a b : Expr)

inductive Value where
  | text (s : Str)
  | bool (b : Bool)

def Value.truthy : Value → Bool
  | .text s => !s.isEmpty
  | .bool b => b

def Value.shown : Value → Str
  | .text s => s
  | .bool b => if b then "true".toList else "false".toList

/-- `&&` and `||` come to one of their sides. -/
def Value.and (a b : Value) : Value := if a.truthy then b else a

def Value.or (a b : Value) : Value := if a.truthy then a else b

/-- The outputs and what is equal are GitHub's. -/
def Expr.eval (outputs : Str → Str → Str) (equal : Value → Value → Bool) : Expr → Value
  | .output job name => .text (outputs job name)
  | .literal s => .text s
  | .equal a b => .bool (equal (a.eval outputs equal) (b.eval outputs equal))
  | .both a b => (a.eval outputs equal).and (b.eval outputs equal)
  | .either a b => (a.eval outputs equal).or (b.eval outputs equal)

/-- `needs.job.outputs.name == 'tested' && 'chosen' || 'other'`. -/
def chosenExpr (job name tested chosen other : Str) : Expr :=
  .either (.both (.equal (.output job name) (.literal tested)) (.literal chosen)) (.literal other)

def IsGap (s : Str) : Prop := s ≠ [] ∧ ∀ c ∈ s, isBlank c = true

/-- The text is that expression, with blanks around its operators. -/
def Spelled (text job name tested chosen other : Str) : Prop :=
  (∀ c ∈ job ++ name, isNameChar c = true) ∧ '\'' ∉ tested ++ chosen ++ other ∧
    ∃ a b c d e f g h : Str, (∀ gap ∈ [a, b, c, d, e, f, g, h], IsGap gap) ∧
      text = "$\x7b\x7b".toList ++ a ++ "needs.".toList ++ job ++ ".outputs.".toList ++ name ++
        b ++ "==".toList ++ c ++ quoted tested ++ d ++ "&&".toList ++ e ++ quoted chosen ++
        f ++ "||".toList ++ g ++ quoted other ++ h ++ "\x7d\x7d".toList

/-- A text can come to a value: a text without an expression to itself, the expression to what it
evaluates to, any other expression to anything. -/
def Evaluates (equal : Value → Value → Bool) (text value : Str) : Prop :=
  if occursIn "$\x7b\x7b" text then
    ∀ job name tested chosen other, Spelled text job name tested chosen other →
      ∃ outputs, value = ((chosenExpr job name tested chosen other).eval outputs equal).shown
  else value = text

theorem shown_chosenExpr (job name tested other : Str) {chosen : Str} (hne : chosen ≠ [])
    (outputs : Str → Str → Str) (equal : Value → Value → Bool) :
    ((chosenExpr job name tested chosen other).eval outputs equal).shown = chosen ∨
      ((chosenExpr job name tested chosen other).eval outputs equal).shown = other := by
  simp only [chosenExpr, Expr.eval]
  cases equal (.text (outputs job name)) (.text tested) with
  | true => exact Or.inl (by simp [Value.and, Value.or, Value.truthy, hne, Value.shown])
  | false => exact Or.inr (by simp [Value.and, Value.or, Value.truthy, Value.shown])

theorem of_mem_one {p : Char → Bool} {s : Str} {found : Char × Str} (h : found ∈ one p s) :
    s = found.1 :: found.2 ∧ p found.1 = true := by
  cases s with
  | nil => cases h
  | cons c s =>
    rw [one] at h
    split_ifs at h with hc
    · rw [List.mem_singleton.mp h]
      exact ⟨rfl, hc⟩
    · cases h

theorem of_mem_identifier {s : Str} {found : Str × Str} (h : found ∈ identifier s) :
    s = found.1 ++ found.2 ∧ ∀ c ∈ found.1, isNameChar c = true := by
  obtain ⟨⟨c, t⟩, hc, hmem⟩ := Matcher.mem_bind.mp h
  obtain ⟨⟨u, rest⟩, hu, hmem⟩ := Matcher.mem_bind.mp hmem
  obtain ⟨rfl, hstart⟩ := of_mem_one hc
  obtain ⟨ht, hall⟩ := Matcher.of_mem_star hu
  obtain rfl : found = (c :: u, rest) := List.mem_singleton.mp hmem
  refine ⟨congrArg (c :: ·) ht, List.forall_mem_cons.mpr ⟨?_, hall⟩⟩
  rw [isNameStart, Bool.or_eq_true] at hstart
  rw [isNameChar, Char.isAlphanum]
  rcases hstart with h | h <;> simp [h]

theorem of_mem_literal {s : Str} {found : Str × Str} (h : found ∈ literal s) :
    s = quoted found.1 ++ found.2 ∧ found.1 ≠ [] ∧ '\'' ∉ found.1 := by
  obtain ⟨⟨_, s₁⟩, h₁, hmem⟩ := Matcher.mem_bind.mp h
  obtain ⟨⟨c, s₂⟩, h₂, hmem⟩ := Matcher.mem_bind.mp hmem
  obtain ⟨⟨u, s₃⟩, h₃, hmem⟩ := Matcher.mem_bind.mp hmem
  obtain ⟨⟨_, s₄⟩, h₄, hmem⟩ := Matcher.mem_bind.mp hmem
  obtain rfl : found = (c :: u, s₄) := List.mem_singleton.mp hmem
  dsimp only at h₂ h₃ h₄
  obtain rfl := Matcher.of_mem_word h₁
  obtain ⟨rfl, hc⟩ := of_mem_one h₂
  obtain ⟨rfl, hu⟩ := Matcher.of_mem_star h₃
  obtain rfl := Matcher.of_mem_word h₄
  dsimp only at hc hu
  refine ⟨by simp [quoted], List.cons_ne_nil _ _, ?_⟩
  intro hquote
  rcases List.mem_cons.mp hquote with rfl | hquote
  · exact absurd hc (by decide)
  · exact absurd (hu _ hquote) (by decide)

theorem of_mem_between {w s : Str} {found : Unit × Str} (h : found ∈ between w s) :
    ∃ a b, IsGap a ∧ IsGap b ∧ s = a ++ w ++ b ++ found.2 := by
  obtain ⟨⟨a, s₁⟩, h₁, hmem⟩ := Matcher.mem_bind.mp h
  obtain ⟨⟨_, s₂⟩, h₂, hmem⟩ := Matcher.mem_bind.mp hmem
  obtain ⟨⟨b, s₃⟩, h₃, hmem⟩ := Matcher.mem_bind.mp hmem
  obtain rfl : found = ((), s₃) := List.mem_singleton.mp hmem
  dsimp only at h₂ h₃
  obtain ⟨rfl, ha⟩ := Matcher.of_mem_plus h₁
  obtain rfl := Matcher.of_mem_word h₂
  obtain ⟨rfl, hb⟩ := Matcher.of_mem_plus h₃
  exact ⟨a, b, ha, hb, by simp⟩

theorem spelled_of_chosen {text first second : Str}
    (h : chosenEnvironments text = some (first, second)) :
    first ≠ [] ∧ ∃ job name, Spelled text job name first first second := by
  obtain ⟨⟨names, rest⟩, hfind, rfl⟩ := Option.map_eq_some_iff.mp h
  have hmem := List.mem_of_find?_eq_some hfind
  have hrest : rest = [] := by simpa using List.find?_some hfind
  obtain ⟨⟨_, s₁⟩, h₁, hmem⟩ := Matcher.mem_bind.mp hmem
  obtain ⟨⟨a, s₂⟩, h₂, hmem⟩ := Matcher.mem_bind.mp hmem
  obtain ⟨⟨_, s₃⟩, h₃, hmem⟩ := Matcher.mem_bind.mp hmem
  obtain ⟨⟨job, s₄⟩, h₄, hmem⟩ := Matcher.mem_bind.mp hmem
  obtain ⟨⟨_, s₅⟩, h₅, hmem⟩ := Matcher.mem_bind.mp hmem
  obtain ⟨⟨name, s₆⟩, h₆, hmem⟩ := Matcher.mem_bind.mp hmem
  obtain ⟨⟨_, s₇⟩, h₇, hmem⟩ := Matcher.mem_bind.mp hmem
  obtain ⟨⟨chosen, s₈⟩, h₈, hmem⟩ := Matcher.mem_bind.mp hmem
  obtain ⟨⟨_, s₉⟩, h₉, hmem⟩ := Matcher.mem_bind.mp hmem
  obtain ⟨⟨_, t₁⟩, k₁, hmem⟩ := Matcher.mem_bind.mp hmem
  obtain ⟨⟨_, t₂⟩, k₂, hmem⟩ := Matcher.mem_bind.mp hmem
  obtain ⟨⟨other, t₃⟩, k₃, hmem⟩ := Matcher.mem_bind.mp hmem
  obtain ⟨⟨last, t₄⟩, k₄, hmem⟩ := Matcher.mem_bind.mp hmem
  obtain ⟨⟨_, t₅⟩, k₅, hmem⟩ := Matcher.mem_bind.mp hmem
  obtain ⟨hnames, hend⟩ := Prod.mk.inj (List.mem_singleton.mp hmem)
  dsimp only at h₂ h₃ h₄ h₅ h₆ h₇ h₈ h₉ k₁ k₂ k₃ k₄ k₅
  obtain ⟨rfl, rfl⟩ := Prod.mk.inj hnames
  obtain rfl := Matcher.of_mem_word h₁
  obtain ⟨rfl, ha⟩ := Matcher.of_mem_plus h₂
  obtain rfl := Matcher.of_mem_word h₃
  obtain ⟨rfl, hjob⟩ := of_mem_identifier h₄
  obtain rfl := Matcher.of_mem_word h₅
  obtain ⟨rfl, hname⟩ := of_mem_identifier h₆
  obtain ⟨b, c, hb, hc, rfl⟩ := of_mem_between h₇
  obtain ⟨rfl, hne, hclean⟩ := of_mem_literal h₈
  obtain ⟨d, e, hd, he, rfl⟩ := of_mem_between h₉
  obtain rfl := Matcher.of_mem_word k₁
  obtain ⟨f, g, hf, hg, rfl⟩ := of_mem_between k₂
  obtain ⟨rfl, -, hother⟩ := of_mem_literal k₃
  obtain ⟨rfl, hlast⟩ := Matcher.of_mem_plus k₄
  obtain rfl := Matcher.of_mem_word k₅
  refine ⟨hne, job, name, List.forall_mem_append.mpr ⟨hjob, hname⟩, ?_,
    a, b, c, d, e, f, g, last, ?_, ?_⟩
  · simp [hclean, hother]
  · simp only [List.forall_mem_cons]
    exact ⟨ha, hb, hc, hd, he, hf, hg, hlast, nofun⟩
  · obtain rfl : t₅ = [] := hend.symm.trans hrest
    simp [quoted]

section Mappings

variable {ω : Type} {i : Interpreter ω} {entries : List (Obj ω × Obj ω)} {key : Str} {o v : Obj ω}

/-- The names that the check looks up. -/
def lookedUp : List Str :=
  ["jobs", "environment", "uses", "with", "name", "delivery"].map String.toList

/-- The text of a key that is no text is none of the names. -/
def PrintsApart (i : Interpreter ω) : Prop :=
  ∀ key : Obj ω, (∀ s, key ≠ .text s) → strOf i key ∉ lookedUp

/-- What YAML reads: no mapping has a key twice. -/
inductive WellRead : Obj ω → Prop
  | text (s : Str) : WellRead (.text s)
  | bool (b : Bool) : WellRead (.bool b)
  | other (value : ω) : WellRead (.other value)
  | list {items : List (Obj ω)} (hitems : ∀ item ∈ items, WellRead item) : WellRead (.list items)
  | mapping {entries : List (Obj ω × Obj ω)} (hkeys : (entries.map Prod.fst).Nodup)
      (hvalues : ∀ e ∈ entries, WellRead e.2) : WellRead (.mapping entries)

theorem isText_iff {s : Str} {value : Option (Obj ω)} :
    isText s value = true ↔ value = some (.text s) := by
  rcases value with _ | (t | _ | _ | _ | _) <;> simp [isText]

theorem mem_of_at (h : (Obj.mapping entries).at key = some v) : (.text key, v) ∈ entries := by
  obtain ⟨⟨k, w⟩, hfind, rfl⟩ := Option.map_eq_some_iff.mp h
  have hfound := List.find?_some hfind
  obtain rfl := Option.some.inj (isText_iff.mp hfound)
  exact List.mem_of_find?_eq_some hfind

theorem WellRead.at (hread : WellRead o) (h : o.at key = some v) : WellRead v := by
  cases hread with
  | mapping _ hvalues => exact hvalues _ (mem_of_at h)
  | _ => cases h

theorem Mapping.get_put (d : Mapping ω) (key other : Str) (v : Obj ω) :
    (d.put key v).get other = if other = key then some v else d.get other := by
  have hcons : ∀ (e : Str × Obj ω) (d : Mapping ω),
      Mapping.get (e :: d) other = if other = e.1 then some e.2 else d.get other := by
    intro e d
    rw [Mapping.get, List.lookup_cons]
    by_cases h : other = e.1
    · simp [h]
    · rw [beq_eq_false_iff_ne.mpr h, if_neg h]
      rfl
  induction d with
  | nil => exact hcons _ _
  | cons e d ih =>
    rw [Mapping.put, hcons]
    by_cases he : e.1 = key
    · rw [if_pos he, hcons, he]
      split_ifs <;> rfl
    · rw [if_neg he, hcons, ih]
      by_cases hother : other = e.1
      · rw [if_pos hother, if_neg (hother ▸ he), if_pos hother]
      · rw [if_neg hother, if_neg hother]

theorem get_foldl {d : Mapping ω} (honly : ∀ e ∈ entries, strOf i e.1 = key → e.2 = v)
    (h : (∃ e ∈ entries, strOf i e.1 = key) ∨ d.get key = some v) :
    Mapping.get (entries.foldl (fun d e => d.put (strOf i e.1) e.2) d) key = some v := by
  induction entries generalizing d with
  | nil => exact h.resolve_left (by simp)
  | cons e entries ih =>
    obtain ⟨hone, honly⟩ := List.forall_mem_cons.mp honly
    refine ih honly ?_
    by_cases he : strOf i e.1 = key
    · right
      rw [Mapping.get_put, if_pos he.symm, hone he]
    · rcases h with ⟨other, hmem, hother⟩ | h
      · rcases List.mem_cons.mp hmem with rfl | hmem
        · exact absurd hother he
        · exact Or.inl ⟨other, hmem, hother⟩
      · right
        rw [Mapping.get_put, if_neg (Ne.symm he), h]

theorem get_foldl_none {d : Mapping ω} (h : ∀ e ∈ entries, strOf i e.1 ≠ key) :
    Mapping.get (entries.foldl (fun d e => d.put (strOf i e.1) e.2) d) key = d.get key := by
  induction entries generalizing d with
  | nil => rfl
  | cons e entries ih =>
    obtain ⟨hone, hall⟩ := List.forall_mem_cons.mp h
    rw [List.foldl_cons, ih hall, Mapping.get_put, if_neg hone.symm]

theorem asMapping_get {d : Mapping ω} (hprint : PrintsApart i) (hkey : key ∈ lookedUp)
    (hread : WellRead o) (h : asMapping i (some o) = some d) : d.get key = o.at key := by
  have hsame : ∀ k : Obj ω, strOf i k = key → k = .text key := by
    intro k hstr
    by_cases htext : ∃ s, k = .text s
    · obtain ⟨s, rfl⟩ := htext
      exact congrArg Obj.text hstr
    · exact absurd (hstr ▸ hkey) (hprint k (not_exists.mp htext))
  cases hread with
  | mapping hkeys hvalues =>
    obtain rfl := Option.some.inj h
    cases hat : Obj.at key (.mapping _) with
    | none =>
      refine get_foldl_none fun e he hstr => ?_
      have hnone := List.find?_eq_none.mp (Option.map_eq_none_iff.mp hat) e he
      exact hnone (isText_iff.mpr (congrArg some (hsame _ hstr)))
    | some v =>
      refine get_foldl (fun e he hstr => ?_) (Or.inl ⟨_, mem_of_at hat, rfl⟩)
      exact congrArg Prod.snd (List.inj_on_of_nodup_map hkeys he (mem_of_at hat) (hsame _ hstr))
  | _ => cases h

theorem asMapping_of_at (hprint : PrintsApart i) (hkey : key ∈ lookedUp) (hread : WellRead o)
    (h : o.at key = some v) : ∃ d, asMapping i (some o) = some d ∧ d.get key = some v := by
  cases o with
  | mapping entries => exact ⟨_, rfl, (asMapping_get hprint hkey hread rfl).trans h⟩
  | _ => cases h

theorem at_of_within {d d' : Mapping ω} (hprint : PrintsApart i) (hkey : key ∈ lookedUp)
    (hread : WellRead o) (ho : asMapping i (some o) = some d)
    (h : asMapping i (d.get key) = some d') :
    ∃ v, o.at key = some v ∧ WellRead v ∧ asMapping i (some v) = some d' := by
  rw [asMapping_get hprint hkey hread ho] at h
  cases hat : o.at key with
  | none =>
    rw [hat] at h
    cases h
  | some v => exact ⟨v, rfl, hread.at hat, hat ▸ h⟩

end Mappings

section Jobs

variable {ω : Type} {i : Interpreter ω} {checks : Checks ω} {equal : Value → Value → Bool}
  {files : List (WorkflowFile ω)} {file : WorkflowFile ω} {names : List Str}

/-- The id of a job, as GitHub reads a key; no other key begins with a letter. -/
def jobId : Obj ω → Option Str
  | .text s => some s
  | .bool b => some (if b then "true".toList else "false".toList)
  | _ => none

/-- The jobs of a file that GitHub runs: every id is a name, and no two differ in case only. -/
def IsJobs (entries : List (Obj ω × Obj ω)) : Prop :=
  (∀ e ∈ entries, (jobId e.1).isSome) ∧
    (entries.map fun e => (jobId e.1).map (·.map Char.toLower)).Nodup

def IsJob (file : WorkflowFile ω) (id job : Obj ω) : Prop :=
  ∃ d jobs, file.loaded = .document d ∧ d.at "jobs" = some (.mapping jobs) ∧ IsJobs jobs ∧
    (id, job) ∈ jobs

/-- The value at which a job names the environment it runs in, or passes one to a call. -/
def NamesAt (job value : Obj ω) : Prop :=
  ∃ v, (job.at "environment" = some v ∨ ∃ uses given, job.at "uses" = some (.text uses) ∧
      job.at "with" = some given ∧ given.at "environment" = some v) ∧
    (v.at "name" = some value ∨ (∀ entries, v ≠ .mapping entries) ∧ value = v)

/-- A value can come to a name: a text by evaluation, any other by how it is printed. -/
def ReadsAs (equal : Value → Value → Bool) (printed : Obj ω → Str) (value : Obj ω) (name : Str) :
    Prop :=
  match value with
  | .text s => Evaluates equal s name
  | value => name = printed value

/-- The environment that the delivery job of a document passes to its call. -/
def passed (d : Obj ω) : Option (Obj ω) := do
  let jobs ← d.at "jobs"
  let job ← jobs.at jobName
  let given ← job.at "with"
  given.at "environment"

theorem lower_strOf {key : Obj ω} {id : Str} (h : jobId key = some id) :
    (strOf i key).map Char.toLower = id.map Char.toLower := by
  cases key with
  | text s => rw [← Option.some.inj h, strOf]
  | bool b =>
    rw [← Option.some.inj h]
    cases b <;> simp only [strOf, toList_literal] <;> decide
  | _ => cases h

theorem mem_asMapping {jobs : List (Obj ω × Obj ω)} {id job : Obj ω} (hjobs : IsJobs jobs)
    (h : (id, job) ∈ jobs) :
    ∃ d, asMapping i (some (.mapping jobs)) = some d ∧ (strOf i id, job) ∈ d := by
  refine ⟨_, rfl, mem_of_lookup (get_foldl (fun e he hstr => ?_) (Or.inl ⟨_, h, rfl⟩))⟩
  obtain ⟨own, hown⟩ := Option.isSome_iff_exists.mp (hjobs.1 _ h)
  obtain ⟨other, hother⟩ := Option.isSome_iff_exists.mp (hjobs.1 e he)
  have hfold : other.map Char.toLower = own.map Char.toLower := by
    rw [← lower_strOf hother, ← lower_strOf hown, hstr]
  refine congrArg Prod.snd (List.inj_on_of_nodup_map hjobs.2 he h ?_)
  rw [hother, hown, Option.map_some, Option.map_some, hfold]

theorem mem_spelled {job value : Obj ω} (hprint : PrintsApart i) (hread : WellRead job)
    (h : NamesAt job value) :
    ∃ d, asMapping i (some job) = some d ∧ ∃ e ∈ spelled i d, namedValue i e = some value := by
  obtain ⟨v, hplace, hvalue⟩ := h
  have hnamed : WellRead v → namedValue i (some v) = some value := by
    intro hv
    rcases hvalue with hname | ⟨hplain, rfl⟩
    · obtain ⟨named, hnamed, hget⟩ := asMapping_of_at hprint (by decide) hv hname
      rw [namedValue, hnamed]
      exact hget
    · cases value with
      | mapping entries => exact absurd rfl (hplain entries)
      | _ => rfl
  rcases hplace with hown | ⟨uses, given, huses, hgiven, hv⟩
  · obtain ⟨d, hd, hget⟩ := asMapping_of_at hprint (by decide) hread hown
    exact ⟨d, hd, some v, by rw [spelled, hget]; exact List.mem_cons_self, hnamed (hread.at hown)⟩
  · obtain ⟨d, hd, hgetuses⟩ := asMapping_of_at hprint (by decide) hread huses
    have hinputs := hread.at hgiven
    obtain ⟨inputs, hasinputs, hget⟩ := asMapping_of_at hprint (by decide) hinputs hv
    have hgetwith : d.get "with" = some given :=
      (asMapping_get hprint (by decide) hread hd).trans hgiven
    refine ⟨d, hd, some v, ?_, hnamed (hinputs.at hv)⟩
    rw [spelled, hgetuses, hgetwith, hasinputs]
    exact List.mem_cons_of_mem _ (List.mem_singleton.mpr hget.symm)

theorem mem_environmentsOf {file s name : Str} {e : Option (Obj ω)}
    (he : namedValue i e = some (.text s)) (hnone : (environmentsOf i file e).2 = [])
    (h : Evaluates equal s name) : name ∈ (environmentsOf i file e).1 := by
  rw [environmentsOf, he] at hnone ⊢
  rw [Evaluates] at h
  dsimp only at hnone ⊢
  split_ifs at h hnone ⊢ with hexpr
  · cases hchosen : chosenEnvironments s with
    | none =>
      rw [hchosen] at hnone
      cases hnone
    | some names =>
      obtain ⟨hne, job, output, hspelled⟩ := spelled_of_chosen hchosen
      obtain ⟨outputs, rfl⟩ := h _ _ _ _ _ hspelled
      rcases shown_chosenExpr job output names.1 names.2 hne outputs equal with hshown | hshown
      · exact List.mem_cons.mpr (Or.inl hshown)
      · exact List.mem_cons_of_mem _ (List.mem_singleton.mpr hshown)
  · simp [h]

theorem mem_fileEnvironments {id job : Obj ω} {s name : Str}
    (hprint : PrintsApart i) (hread : ∀ d, file.loaded = .document d → WellRead d)
    (h : fileEnvironments i file = some (names, [])) (hjob : IsJob file id job)
    (hnames : NamesAt job (.text s)) (hname : Evaluates equal s name) : name ∈ names := by
  obtain ⟨d, jobs, hloaded, hat, hids, hmem⟩ := hjob
  have hd := hread d hloaded
  have hjobs := hd.at hat
  obtain ⟨top, htop, hget⟩ := asMapping_of_at hprint (by decide) hd hat
  obtain ⟨all, hall, hin⟩ := mem_asMapping (i := i) hids hmem
  have hjobread : WellRead job := by
    cases hjobs with
    | mapping _ hvalues => exact hvalues _ hmem
  obtain ⟨declared, hdeclared, e, he, hvalue⟩ := mem_spelled hprint hjobread hnames
  rw [fileEnvironments, hloaded] at h
  dsimp only at h
  rw [htop, Option.bind_some, hget, hall, Option.getD_some] at h
  obtain ⟨rfl, hfound⟩ := Prod.mk.inj (Option.some.inj h)
  have hone := List.flatMap_eq_nil_iff.mp hfound _ (List.mem_map.mpr ⟨_, hin, rfl⟩)
  refine List.mem_flatMap.mpr ⟨_, List.mem_map.mpr ⟨_, hin, rfl⟩, ?_⟩
  rw [jobEnvironments, hdeclared] at hone ⊢
  dsimp only at hone ⊢
  have hnone := List.flatMap_eq_nil_iff.mp hone _ (List.mem_map.mpr ⟨e, he, rfl⟩)
  exact List.mem_flatMap.mpr ⟨_, List.mem_map.mpr ⟨e, he, rfl⟩,
    mem_environmentsOf hvalue hnone hname⟩

theorem isGlobbed_of_suffix {stem : Str} (h : file.name = stem ++ ".yml".toList ∨
    file.name = stem ++ ".yaml".toList) : isGlobbed file.name = true := by
  rw [isGlobbed, List.any_eq_true]
  rcases h with h | h
  · exact ⟨".yml".toList, (List.mem_tails _ _).mpr ⟨stem, h.symm⟩, by decide⟩
  · exact ⟨".yaml".toList, (List.mem_tails _ _).mpr ⟨stem, h.symm⟩, by decide⟩

theorem fileEnvironments_of_mem (h : environmentsUsed i files callerFile = some (names, []))
    (hfile : file ∈ files) (hglob : isGlobbed file.name = true) (hother : file.name ≠ callerFile) :
    ∃ own, fileEnvironments i file = some (own, []) ∧ ∀ name ∈ own, name ∈ names := by
  rw [environmentsUsed] at h
  obtain ⟨results, hresults, h⟩ := Option.bind_eq_some_iff.mp h
  obtain ⟨rfl, hfound⟩ := Prod.mk.inj (Option.some.inj h)
  have hchosen : file ∈ (files.filter fun file => isGlobbed file.name &&
      file.name != callerFile).mergeSort fun a b => decide (a.name ≤ b.name) := by
    rw [List.mem_mergeSort, List.mem_filter]
    exact ⟨hfile, by simp [hglob, hother]⟩
  obtain ⟨own, hown, hread⟩ := exists_mem_of_forall₂ (forall₂_of_mapM hresults) hchosen
  have hnone : own.2 = [] := List.flatMap_eq_nil_iff.mp hfound own hown
  exact ⟨own.1, by rw [hread, ← hnone], fun name hname => List.mem_flatMap.mpr ⟨own, hown, hname⟩⟩

theorem need_eq_nil {holds : Bool} {finding : Str} (h : need holds finding = []) :
    holds = true := by
  rw [need] at h
  split_ifs at h with hholds
  exact hholds

theorem inputFindings_eq_nil {inputs : Option (Obj ω)} {others : List Str}
    (h : inputFindings i inputs others = []) :
    ∃ given, asMapping i inputs = some given ∧
      given.get "environment" = some (.text environmentName) ∧
      i.casefold environmentName ∉ others.map i.casefold := by
  rw [inputFindings] at h
  cases hgiven : asMapping i inputs with
  | none =>
    rw [hgiven] at h
    cases h
  | some given =>
    rw [hgiven] at h
    simp only [List.append_eq_nil_iff] at h
    obtain ⟨⟨⟨⟨⟨⟨⟨⟨-, htext⟩, hfold⟩, -⟩, -⟩, -⟩, -⟩, -⟩, -⟩ := h
    have hget := need_eq_nil htext
    cases hvalue : given.get "environment" with
    | none =>
      rw [hvalue] at hget
      cases hget
    | some value =>
      rw [hvalue] at hget hfold
      cases value with
      | text s =>
        obtain rfl : s = environmentName := beq_iff_eq.mp hget
        exact ⟨given, rfl, hvalue, of_decide_eq_true (need_eq_nil hfold)⟩
      | _ => cases hget

theorem passed_of_callerFindings {d : Obj ω} {others : List Str} (hprint : PrintsApart i)
    (hread : WellRead d) (h : callerFindings i checks d others = some []) :
    passed d = some (.text environmentName) ∧
      i.casefold environmentName ∉ others.map i.casefold := by
  rw [callerFindings] at h
  cases htop : asMapping i (some d) with
  | none =>
    rw [htop] at h
    cases h
  | some top =>
    rw [htop] at h
    obtain ⟨jobs, hjobs, h⟩ := Option.bind_eq_some_iff.mp h
    obtain rfl := (List.append_eq_nil_iff.mp (Option.some.inj h)).2
    rw [jobFindings] at hjobs
    cases hdeclared : asMapping i (top.get "jobs") with
    | none =>
      rw [hdeclared] at hjobs
      cases hjobs
    | some declared =>
      rw [hdeclared] at hjobs
      dsimp only at hjobs
      split_ifs at hjobs
      · cases hjobs
      cases hjob : asMapping i (declared.get jobName) with
      | none =>
        rw [hjob] at hjobs
        exact absurd (Option.some.inj hjobs) (by simp)
      | some job =>
        rw [hjob] at hjobs
        obtain ⟨uses, -, hjobs⟩ := Option.bind_eq_some_iff.mp hjobs
        have hinputs := (List.append_eq_nil_iff.mp
          (List.append_eq_nil_iff.mp (Option.some.inj hjobs)).1).2
        obtain ⟨given, hgiven, hget, hfold⟩ := inputFindings_eq_nil hinputs
        obtain ⟨jobs, hat, hread, hjobs⟩ := at_of_within hprint (by decide) hread htop hdeclared
        obtain ⟨delivery, hatjob, hread, hjob⟩ :=
          at_of_within hprint (by decide) hread hjobs hjob
        obtain ⟨inputs, hatwith, hread, hinputs⟩ :=
          at_of_within hprint (by decide) hread hjob hgiven
        rw [asMapping_get hprint (by decide) hread hinputs] at hget
        simp only [passed, hat, hatjob, hatwith, hget, hfold, Option.bind_eq_bind,
          Option.bind_some, not_false_iff, and_self]

end Jobs

/-- Where the check of the caller finds nothing, no job of another workflow comes to the
environment of the delivery, the caller's own job passes exactly that, and the expression that is
read chooses between the two names it is read for. -/
theorem only_caller_releases {ω : Type} (i : Interpreter ω) (checks : Checks ω)
    (equal : Value → Value → Bool) (same : Str → Str → Prop) (printed : Obj ω → Str)
    (files : List (WorkflowFile ω)) (hprint : PrintsApart i)
    (hfold : ∀ a b, same a b → i.casefold a = i.casefold b)
    (hprinted : ∀ v : Obj ω, (∀ s, v ≠ .text s) → ¬ same (printed v) environmentName)
    (hread : ∀ file ∈ files, ∀ d, file.loaded = .document d → WellRead d)
    (h : checkCaller i checks files = some []) :
    (∀ file ∈ files, file.name ≠ callerFile → (∃ stem, file.name = stem ++ ".yml".toList ∨
        file.name = stem ++ ".yaml".toList) → ∀ id job, IsJob file id job →
      ∀ value name, NamesAt job value → ReadsAs equal printed value name →
        ¬ same name environmentName) ∧
    (∃ d, callerLoaded files = .document d ∧ passed d = some (.text environmentName)) ∧
    ∀ text first second, chosenEnvironments text = some (first, second) →
      ∃ job name, Spelled text job name first first second ∧ ∀ outputs equal,
        ((chosenExpr job name first first second).eval outputs equal).shown = first ∨
          ((chosenExpr job name first first second).eval outputs equal).shown = second := by
  rw [checkCaller] at h
  obtain ⟨⟨others, findings⟩, hused, h⟩ := Option.bind_eq_some_iff.mp h
  obtain ⟨d, hloaded, hcaller, rfl⟩ : ∃ d, callerLoaded files = .document d ∧
      callerFindings i checks d others = some [] ∧ findings = [] := by
    cases hloaded : callerLoaded files with
    | raises =>
      rw [hloaded] at h
      cases h
    | problem kind =>
      rw [hloaded] at h
      exact absurd (Option.some.inj h) (by simp)
    | document d =>
      rw [hloaded] at h
      obtain ⟨more, hmore, hnil⟩ := Option.map_eq_some_iff.mp h
      obtain ⟨rfl, rfl⟩ := List.append_eq_nil_iff.mp hnil
      exact ⟨d, rfl, hmore, rfl⟩
  have hd : WellRead d := by
    rw [callerLoaded] at hloaded
    cases hfind : files.find? fun file => file.name == callerFile with
    | none =>
      rw [hfind] at hloaded
      cases hloaded
    | some file =>
      rw [hfind] at hloaded
      exact hread file (List.mem_of_find?_eq_some hfind) d hloaded
  obtain ⟨hpassed, hothers⟩ := passed_of_callerFindings hprint hd hcaller
  refine ⟨?_, ⟨d, hloaded, hpassed⟩, ?_⟩
  · rintro file hfile hother ⟨stem, hstem⟩ id job hjob value name hnames hname hsame
    cases value with
    | text s =>
      obtain ⟨own, hown, hsub⟩ :=
        fileEnvironments_of_mem hused hfile (isGlobbed_of_suffix hstem) hother
      have hmem := mem_fileEnvironments hprint (hread file hfile) hown hjob hnames hname
      exact hothers (List.mem_map.mpr ⟨name, hsub name hmem, hfold _ _ hsame⟩)
    | _ =>
      rw [ReadsAs] at hname
      · exact hprinted _ (by simp) (hname ▸ hsame)
      · simp
  · intro text first second hchosen
    obtain ⟨hne, job, name, hspelled⟩ := spelled_of_chosen hchosen
    exact ⟨job, name, hspelled, shown_chosenExpr job name first second hne⟩

/-- An interpreter of documents whose only other value is `null`. -/
def plainInterpreter : Interpreter Unit :=
  ⟨fun _ => "None".toList, fun _ => [], (·.map Char.toLower)⟩

/-- What the other checks find in the sample. -/
def noFindings : Checks Unit := ⟨fun _ => [], fun _ => [], fun _ => []⟩

def plain (s : String) : Obj Unit := .text s.toList

def members (entries : List (String × Obj Unit)) : Obj Unit :=
  .mapping (entries.map fun e => (plain e.1, e.2))

/-- A caller; what the other checks read of it is left out. -/
def callerDocument : Obj Unit := members
  [("on", .other ()),
    ("permissions", members [("contents", plain "read"), ("actions", plain "read")]),
    ("jobs", members
      [("queue-proof", .other ()),
        ("delivery", members
          [("needs", .list [plain "queue-proof"]),
            ("uses", .text ("branchLeft/github-workflows/.github/workflows/".toList ++
              "ansible-gated-apply.yml@v1.0.23".toList)),
            ("with", members [("environment", plain "ansible-hosts"),
              ("role-directories", plain "roles/*\npatterns/*"),
              ("python-paths", .text pythonPaths), ("role-test-command", .text roleTestCommand),
              ("skip-rerun-after-merge-group", .text skipExpression),
              ("merge-group-check-name", .text gateCheckName),
              ("push-playbook", .text pushPlaybook)]),
            ("secrets", .other ())])])]

def pulumiDocument : Obj Unit :=
  members [("jobs", members [("up", members [("environment", plain "pulumi-apply")])])]

def sampleFiles : List (WorkflowFile Unit) :=
  [⟨callerFile, .document callerDocument⟩, ⟨"pulumi.yml", .document pulumiDocument⟩]

theorem wellRead_members {entries : List (String × Obj Unit)} (hkeys : (entries.map Prod.fst).Nodup)
    (hvalues : ∀ e ∈ entries, WellRead e.2) : WellRead (members entries) := by
  refine .mapping ?_ fun e he => ?_
  · rw [List.map_map, show Prod.fst ∘ (fun e : String × Obj Unit => (plain e.1, e.2)) =
      plain ∘ Prod.fst from rfl, ← List.map_map]
    exact hkeys.map fun a b h => String.toList_inj.mp (Obj.text.inj h)
  · obtain ⟨entry, hentry, rfl⟩ := List.mem_map.mp he
    exact hvalues entry hentry


theorem wellRead_sample : ∀ file ∈ sampleFiles, ∀ d, file.loaded = .document d → WellRead d := by
  intro file hfile d hd
  simp only [sampleFiles, List.mem_cons, List.not_mem_nil, or_false] at hfile
  rcases hfile with rfl | rfl
  all_goals obtain rfl := Loaded.document.inj hd
  all_goals repeat' first
    | exact .text _
    | exact .other _
    | exact List.forall_mem_nil _
    | refine List.forall_mem_cons.mpr ⟨?_, ?_⟩
    | refine .list ?_
    | refine wellRead_members (by decide) ?_

theorem only_caller_releases_sample :
    "pulumi-apply".toList.map Char.toLower ≠ environmentName.map Char.toLower ∧
      ∃ d, callerLoaded sampleFiles = .document d ∧ passed d = some (.text environmentName) := by
  obtain ⟨hothers, hcaller, -⟩ := only_caller_releases plainInterpreter noFindings
    (fun _ _ => false) (fun a b => a.map Char.toLower = b.map Char.toLower)
    (fun _ => "null".toList) sampleFiles (fun key hkey => by
      cases key with
      | text s => exact absurd rfl (hkey s)
      | bool b => cases b <;> decide
      | _ => exact (by decide : "None".toList ∉ lookedUp))
    (fun _ _ h => h) (fun _ _ => by decide) wellRead_sample (by decide +kernel)
  refine ⟨hothers ⟨"pulumi.yml", .document pulumiDocument⟩ (by simp [sampleFiles]) (by decide)
    ⟨"pulumi".toList, Or.inl rfl⟩ (plain "up") (members [("environment", plain "pulumi-apply")])
    ⟨_, _, rfl, rfl, ⟨by simp [plain, jobId], List.nodup_singleton _⟩, List.mem_singleton.mpr rfl⟩
    (plain "pulumi-apply") _ ⟨_, Or.inl rfl, Or.inr ⟨by simp [plain], rfl⟩⟩ ?_, hcaller⟩
  rw [plain, ReadsAs, Evaluates, if_neg (by decide)]

end SharedInfra.Delivery
