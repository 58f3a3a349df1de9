import SharedInfra.Effects.Moves
import SharedInfra.Python.Base64
import SharedInfra.Python.Lines

/-!
# Paths and symbolic links

`PurePosixPath`, and a tree of directories, files and symbolic links in which
`os.path.realpath` follows the parts of a path one by one (`walk`).  `Leads`
says where the parts lead, whatever number of turns that takes; it is composed
along the parts (`leads_append`).
-/

namespace SharedInfra.Python

/-- `PurePosixPath`: the slashes it starts with, and its parts. -/
structure PosixPath where
  root : Str
  parts : List Str
  deriving DecidableEq, Repr

/-- `posixpath.splitroot`, without the empty drive. -/
def splitRoot : Str → Str × Str
  | '/' :: '/' :: rest =>
    if rest.head? = some '/' then (['/'], '/' :: rest) else (['/', '/'], rest)
  | '/' :: rest => (['/'], rest)
  | text => ([], text)

namespace PosixPath

/-- `PurePosixPath(text)`. -/
def parse (text : Str) : PosixPath where
  root := (splitRoot text).1
  parts := (splitOnChar '/' (splitRoot text).2).filter fun part =>
    decide (part ≠ [] ∧ part ≠ ['.'])

/-- `str(path)`. -/
def str (p : PosixPath) : Str :=
  if p.root = [] ∧ p.parts = [] then ['.'] else p.root ++ joinWith ['/'] p.parts

/-- `path / name`, for the name of an entry. -/
def child (p : PosixPath) (name : Str) : PosixPath := { p with parts := p.parts ++ [name] }

/-- `path.parent`. -/
def parent (p : PosixPath) : PosixPath := { p with parts := p.parts.dropLast }

@[simp] theorem parent_child (p : PosixPath) (name : Str) : (p.child name).parent = p := by
  simp [parent, child]

theorem child_inj {p q : PosixPath} {name name' : Str} :
    p.child name = q.child name' ↔ p = q ∧ name = name' := by
  cases p
  cases q
  simp only [child, mk.injEq, List.append_singleton_inj]
  tauto

end PosixPath

/-- A name that leads to an entry of a directory. -/
structure Plain (name : Str) : Prop where
  ne : name ≠ []
  not_dot : name ≠ ['.']
  not_dots : name ≠ ['.', '.']
  no_slash : '/' ∉ name

instance (name : Str) : Decidable (Plain name) :=
  decidable_of_iff (name ≠ [] ∧ name ≠ ['.'] ∧ name ≠ ['.', '.'] ∧ '/' ∉ name)
    ⟨fun h => ⟨h.1, h.2.1, h.2.2.1, h.2.2.2⟩, fun h => ⟨h.ne, h.not_dot, h.not_dots, h.no_slash⟩⟩

structure PosixPath.Clean (p : PosixPath) : Prop where
  root : p.root = ['/'] ∨ p.root = ['/', '/']
  parts : ∀ part ∈ p.parts, Plain part

theorem PosixPath.Clean.child {p : PosixPath} (h : p.Clean) {name : Str} (hname : Plain name) :
    (p.child name).Clean :=
  ⟨h.root, List.forall_mem_append.mpr ⟨h.parts, List.forall_mem_singleton.mpr hname⟩⟩

theorem clean_parse {text : Str} (hroot : (PosixPath.parse text).root ≠ [])
    (hdots : ['.', '.'] ∉ (PosixPath.parse text).parts) : (PosixPath.parse text).Clean := by
  constructor
  · simp only [PosixPath.parse, splitRoot] at hroot ⊢
    split at hroot <;> simp_all
    split_ifs <;> simp
  · intro part hpart
    obtain ⟨hpiece, hkeep⟩ := List.mem_filter.mp hpart
    obtain ⟨hne, hdot⟩ := of_decide_eq_true hkeep
    exact ⟨hne, hdot, fun heq => hdots (heq ▸ hpart), not_mem_of_mem_splitOnChar part hpiece⟩

theorem splitRoot_ne (rest : Str) : (splitRoot ('/' :: rest)).1 ≠ [] := by
  rcases rest with _ | ⟨c, rest⟩
  · simp [splitRoot]
  · by_cases hc : c = '/'
    · subst hc
      rw [splitRoot]
      split_ifs <;> simp
    · simp [splitRoot, hc]

theorem mem_split_of_splitRoot {text part : Str}
    (h : part ∈ splitOnChar '/' (splitRoot text).2) : part ∈ splitOnChar '/' text := by
  unfold splitRoot at h
  split at h
  · split_ifs at h
    · exact List.mem_cons_of_mem _ h
    · exact List.mem_cons_of_mem _ (List.mem_cons_of_mem _ h)
  · exact List.mem_cons_of_mem _ h
  · exact h

theorem PosixPath.mem_parse {text part : Str} (h : part ∈ (PosixPath.parse text).parts) :
    part ∈ splitOnChar '/' text :=
  mem_split_of_splitRoot (List.mem_filter.mp h).1

inductive Node where
  | directory
  | file (content : Bytes)
  | link (target : Str)
  deriving DecidableEq

/-- What stands where, by the names from the root. -/
abbrev FileTree := List (List Str × Node)

namespace FileTree

def node (t : FileTree) (p : List Str) : Option Node := (t.find? fun entry => entry.1 = p).map (·.2)

/-- The names in a directory. -/
def children (t : FileTree) (dir : List Str) : List Str :=
  t.filterMap fun entry =>
    if entry.1 ≠ [] ∧ entry.1.dropLast = dir then entry.1.getLast? else none

/-- `unlink` of what is not a directory, if it is there. -/
def unlink (t : FileTree) (p : List Str) : FileTree := t.filter fun entry => entry.1 ≠ p

/-- Put something in a place, over what was there. -/
def put (t : FileTree) (p : List Str) (n : Node) : FileTree := t.unlink p ++ [(p, n)]

/-- `shutil.rmtree(path, ignore_errors=True)`: what is not a directory is left alone. -/
def rmtree (t : FileTree) (p : List Str) : FileTree :=
  if t.node p = some .directory then t.filter fun entry => !p.isPrefixOf entry.1 else t

variable {t : FileTree} {p q : List Str} {n : Node}

theorem node_filter {keep : List Str × Node → Bool} (h : ∀ n, keep (q, n) = true) :
    node (t.filter keep) q = t.node q := by
  rw [node, node, List.find?_filter]
  congr 2
  funext entry
  by_cases heq : entry.1 = q
  · subst heq
    simp [h entry.2]
  · simp [heq]

theorem node_filter_none {keep : List Str × Node → Bool} (h : ∀ n, keep (q, n) = false) :
    node (t.filter keep) q = none := by
  rw [node, List.find?_filter, Option.map_eq_none_iff, List.find?_eq_none]
  rintro ⟨q', n⟩ - hfound
  simp only [decide_eq_true_eq] at hfound
  obtain ⟨hkeep, rfl⟩ := hfound
  rw [h n] at hkeep
  cases hkeep

theorem node_unlink : (t.unlink p).node q = if q = p then none else t.node q := by
  split_ifs with h
  · exact node_filter_none fun n => by simp [h]
  · exact node_filter fun n => by simp [h]

theorem node_put : (t.put p n).node q = if q = p then some n else t.node q := by
  have hunlink : (t.unlink p).node q = if q = p then none else t.node q := node_unlink
  rw [put, node, List.find?_append, Option.map_or, ← node, hunlink]
  split_ifs with h
  · simp [h]
  · simp [Ne.symm h]

theorem node_rmtree : (t.rmtree p).node q =
    if t.node p = some .directory ∧ p <+: q then none else t.node q := by
  rw [rmtree]
  by_cases hdir : t.node p = some .directory
  · rw [if_pos hdir]
    split_ifs with h
    · exact node_filter_none fun n => by simp [h.2]
    · have hapart : p.isPrefixOf q = false := by
        rw [Bool.eq_false_iff, ne_eq, List.isPrefixOf_iff_prefix]
        exact fun hpre => h ⟨hdir, hpre⟩
      exact node_filter fun n => by simp [hapart]
  · simp [hdir]

theorem mem_children {dir : List Str} {name : Str} (h : t.node (dir ++ [name]) ≠ none) :
    name ∈ t.children dir := by
  rw [node, ne_eq, Option.map_eq_none_iff, List.find?_eq_none] at h
  push Not at h
  obtain ⟨entry, hentry, hkey⟩ := h
  have hkey : entry.1 = dir ++ [name] := by simpa using hkey
  refine List.mem_filterMap.mpr ⟨entry, hentry, ?_⟩
  simp [hkey]

end FileTree

section Walk

/-- One part of a path: where it leads and the parts that stand for it. -/
def walkPart (t : FileTree) (path : List Str) (part : Str) : List Str × List Str :=
  if part = [] ∨ part = ['.'] then (path, [])
  else if part = ['.', '.'] then (path.dropLast, [])
  else
    match t.node (path ++ [part]) with
    | some (.link target) =>
      (if target.head? = some '/' then [] else path, splitOnChar '/' target)
    | _ => (path ++ [part], [])

/-- The loop of `os.path.realpath`, over the parts still to follow. -/
def walk : Nat → FileTree → List Str → List Str → Option (List Str)
  | _, _, path, [] => some path
  | 0, _, _, _ :: _ => none
  | turns + 1, t, path, part :: rest =>
    walk turns t (walkPart t path part).1 ((walkPart t path part).2 ++ rest)

/-- `path.resolve()` of an absolute path, in so many turns. -/
def resolve (turns : Nat) (t : FileTree) (p : PosixPath) : Option PosixPath :=
  (walk turns t [] (splitOnChar '/' p.str)).map (PosixPath.mk ['/'])

def Leads (t : FileTree) (path rest q : List Str) : Prop := ∃ turns, walk turns t path rest = some q

variable {t : FileTree} {path rest q r : List Str} {part : Str}

theorem walk_mono {turns more : Nat} (h : walk turns t path rest = some q) (hle : turns ≤ more) :
    walk more t path rest = some q := by
  induction turns generalizing more path rest with
  | zero =>
    cases rest with
    | nil =>
      rw [walk] at h
      rw [walk]
      exact h
    | cons part rest => cases h
  | succ turns ih =>
    obtain ⟨more, rfl⟩ := Nat.exists_eq_succ_of_ne_zero (Nat.ne_of_gt (Nat.zero_lt_of_lt hle))
    cases rest with
    | nil =>
      rw [walk] at h
      rw [walk]
      exact h
    | cons part rest =>
      rw [walk] at h
      rw [walk]
      exact ih h (Nat.le_of_succ_le_succ hle)

theorem leads_nil : Leads t path [] q ↔ q = path := by
  constructor
  · rintro ⟨turns, h⟩
    rw [walk] at h
    exact (Option.some.inj h).symm
  · rintro rfl
    exact ⟨0, by rw [walk]⟩

theorem leads_cons : Leads t path (part :: rest) q ↔
    Leads t (walkPart t path part).1 ((walkPart t path part).2 ++ rest) q := by
  constructor
  · rintro ⟨turns, h⟩
    cases turns with
    | zero => cases h
    | succ turns => exact ⟨turns, by rwa [walk] at h⟩
  · rintro ⟨turns, h⟩
    exact ⟨turns + 1, by rwa [walk]⟩

theorem leads_append {first : List Str} :
    Leads t path (first ++ rest) q ↔ ∃ r, Leads t path first r ∧ Leads t r rest q := by
  constructor
  · rintro ⟨turns, h⟩
    induction turns generalizing path first with
    | zero =>
      cases first with
      | nil => exact ⟨path, leads_nil.mpr rfl, 0, h⟩
      | cons part first => cases h
    | succ turns ih =>
      cases first with
      | nil => exact ⟨path, leads_nil.mpr rfl, turns + 1, h⟩
      | cons part first =>
        rw [List.cons_append, walk, ← List.append_assoc] at h
        obtain ⟨r, hfirst, hrest⟩ := ih h
        exact ⟨r, leads_cons.mpr hfirst, hrest⟩
  · rintro ⟨r, ⟨turns, hfirst⟩, hrest⟩
    induction turns generalizing path first with
    | zero =>
      cases first with
      | nil =>
        obtain rfl := leads_nil.mp ⟨0, hfirst⟩
        exact hrest
      | cons part first => cases hfirst
    | succ turns ih =>
      cases first with
      | nil =>
        obtain rfl := leads_nil.mp ⟨turns + 1, hfirst⟩
        exact hrest
      | cons part first =>
        rw [walk] at hfirst
        rw [List.cons_append, leads_cons, ← List.append_assoc]
        exact ih hfirst

theorem leads_name (hplain : Plain part)
    (hlink : ∀ target, t.node (path ++ [part]) ≠ some (.link target)) :
    Leads t path (part :: rest) q ↔ Leads t (path ++ [part]) rest q := by
  have hpart : walkPart t path part = (path ++ [part], []) := by
    rw [walkPart, if_neg (not_or.mpr ⟨hplain.ne, hplain.not_dot⟩), if_neg hplain.not_dots]
    split
    · next target heq => exact absurd heq (hlink target)
    · rfl
  rw [leads_cons, hpart, List.nil_append]

theorem leads_link (hplain : Plain part) {target : Str} (habs : target.head? = some '/')
    (hlink : t.node (path ++ [part]) = some (.link target)) :
    Leads t path (part :: rest) q ↔ Leads t [] (splitOnChar '/' target ++ rest) q := by
  have hpart : walkPart t path part = ([], splitOnChar '/' target) := by
    rw [walkPart, if_neg (not_or.mpr ⟨hplain.ne, hplain.not_dot⟩), if_neg hplain.not_dots, hlink]
    simp [habs]
  rw [leads_cons, hpart]

theorem leads_empty : Leads t path ([] :: rest) q ↔ Leads t path rest q := by
  rw [leads_cons]
  rfl

end Walk

section Absolute

variable {t : FileTree} {p : PosixPath} {path rest q r : List Str} {name : Str}

theorem PosixPath.Clean.str_eq (h : p.Clean) : p.str = p.root ++ joinWith ['/'] p.parts := by
  rw [PosixPath.str, if_neg]
  rintro ⟨hroot, -⟩
  rcases h.root with hr | hr <;> rw [hr] at hroot <;> cases hroot

theorem PosixPath.Clean.str_head (h : p.Clean) : p.str.head? = some '/' := by
  rw [h.str_eq]
  rcases h.root with hr | hr <;> rw [hr] <;> rfl

theorem leads_str (h : p.Clean) :
    Leads t path (splitOnChar '/' p.str ++ rest) q ↔ Leads t path (p.parts ++ rest) q := by
  have hparts : Leads t path (splitOnChar '/' (joinWith ['/'] p.parts) ++ rest) q ↔
      Leads t path (p.parts ++ rest) q := by
    by_cases hne : p.parts = []
    · rw [hne]
      exact leads_empty
    · rw [splitOnChar_joinWith hne fun part hpart => (h.parts part hpart).no_slash]
  rw [h.str_eq]
  rcases h.root with hr | hr
  · rw [hr]
    exact leads_empty.trans hparts
  · rw [hr]
    exact leads_empty.trans (leads_empty.trans hparts)

def LeadsTo (t : FileTree) (p : PosixPath) (q : List Str) : Prop := Leads t [] (splitOnChar '/' p.str) q

theorem leadsTo_iff (h : p.Clean) : LeadsTo t p q ↔ Leads t [] p.parts q := by
  have htext : Leads t [] (splitOnChar '/' p.str ++ []) q ↔ Leads t [] (p.parts ++ []) q :=
    leads_str h
  rwa [List.append_nil, List.append_nil] at htext

theorem leadsTo_child (h : p.Clean) (hp : LeadsTo t p r) (hname : Plain name)
    (hlink : ∀ target, t.node (r ++ [name]) ≠ some (.link target)) :
    LeadsTo t (p.child name) (r ++ [name]) := by
  rw [leadsTo_iff (h.child hname)]
  refine leads_append.mpr ⟨r, (leadsTo_iff h).mp hp, (leads_name hname hlink).mpr ?_⟩
  exact leads_nil.mpr rfl

theorem leadsTo_link (h : p.Clean) (hp : LeadsTo t p r) (hname : Plain name) {target : PosixPath}
    (htarget : target.Clean) (hlink : t.node (r ++ [name]) = some (.link target.str))
    (hq : LeadsTo t target q) : LeadsTo t (p.child name) q := by
  rw [leadsTo_iff (h.child hname)]
  refine leads_append.mpr ⟨r, (leadsTo_iff h).mp hp, ?_⟩
  rw [leads_link hname htarget.str_head hlink, List.append_nil]
  exact hq

theorem LeadsTo.settles (h : LeadsTo t p q) :
    Effects.Settles (fun turns => resolve turns t p) ⟨['/'], q⟩ := by
  obtain ⟨turns, h⟩ := h
  refine ⟨turns, fun more hmore => ?_⟩
  simp only [resolve, walk_mono h hmore, Option.map_some]

end Absolute

end SharedInfra.Python
