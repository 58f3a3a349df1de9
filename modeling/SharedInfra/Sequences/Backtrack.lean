import Mathlib

/-!
# Backtracking matchers

A matcher lists what it may take off the front of a word, the alternative that
a backtracking engine tries first in front.  Sequencing is the monad's.
`scan` is the search for all matches from the left, each after the end of the
one before, of a pattern tied to the start of a line.

A matcher is local before a text (`Local`) when the text after a word changes
nothing in what it takes from the word; `scan_append` carries that to the
search.
-/

namespace SharedInfra.Sequences

/-- What a pattern may take from the front of a word, with what is left. -/
def Matcher (α β : Type) := List α → List (β × List α)

namespace Matcher

variable {α β γ : Type}

instance : Monad (Matcher α) where
  pure b := fun s => [(b, s)]
  bind m f := fun s => (m s).flatMap fun found => f found.1 found.2

/-- No alternative at all. -/
def fail : Matcher α β := fun _ => []

/-- The letters of a class, as many as there are, then fewer. -/
def star (p : α → Bool) : Matcher α (List α)
  | [] => [([], [])]
  | c :: s =>
    if p c then (star p s).map (fun found => (c :: found.1, found.2)) ++ [([], c :: s)]
    else [([], c :: s)]

/-- One letter of a class at least. -/
def plus (p : α → Bool) : Matcher α (List α) := do
  let u ← star p
  if u = [] then fail else pure u

/-- The word itself. -/
def word [DecidableEq α] (w : List α) : Matcher α Unit := fun s =>
  if w.isPrefixOf s then [((), s.drop w.length)] else []

section Runs

variable {m : Matcher α β} {f : β → Matcher α γ} {s : List α}

theorem pure_run (b : β) (s : List α) : (pure b : Matcher α β) s = [(b, s)] := rfl

theorem bind_run : (m >>= f) s = (m s).flatMap fun found => f found.1 found.2 := rfl

theorem bind_bind {δ : Type} (m : Matcher α β) (f : β → Matcher α γ) (g : γ → Matcher α δ) :
    m >>= f >>= g = m >>= fun b => f b >>= g := by
  funext s
  simp only [bind_run, List.flatMap_assoc]

theorem pure_bind_eq (b : β) (f : β → Matcher α γ) : (pure b >>= f) = f b := by
  funext s
  simp [bind_run, pure_run]

theorem fail_bind (f : β → Matcher α γ) : (fail >>= f) = fail := rfl

theorem plus_bind (p : α → Bool) (f : List α → Matcher α γ) :
    plus p >>= f = star p >>= fun u => if u = [] then fail else f u := by
  rw [plus, bind_bind]
  congr 1
  funext u
  split_ifs
  · exact fail_bind f
  · exact pure_bind_eq u f

theorem mem_bind {found : γ × List α} :
    found ∈ (m >>= f) s ↔ ∃ first ∈ m s, found ∈ f first.1 first.2 := by
  rw [bind_run, List.mem_flatMap]

theorem head_bind {b : β} {rest : List α} {found : γ × List α}
    (hm : (m s).head? = some (b, rest)) (hf : (f b rest).head? = some found) :
    ((m >>= f) s).head? = some found := by
  obtain ⟨others, hothers⟩ := List.head?_eq_some_iff.mp hm
  obtain ⟨more, hmore⟩ := List.head?_eq_some_iff.mp hf
  rw [bind_run, hothers, List.flatMap_cons, hmore]
  rfl

end Runs

section Classes

variable {p : α → Bool}

theorem head_star {u s : List α} (hu : ∀ c ∈ u, p c = true) (hs : ∀ c ∈ s.head?, p c = false) :
    (star p (u ++ s)).head? = some (u, s) := by
  induction u with
  | nil =>
    cases s with
    | nil => rfl
    | cons c s => simp [star, hs c rfl]
  | cons c u ih =>
    obtain ⟨hc, hu⟩ := List.forall_mem_cons.mp hu
    rw [List.cons_append, star, if_pos hc, List.head?_append_of_ne_nil, List.head?_map, ih hu]
    · rfl
    · intro hnil
      have := ih hu
      rw [List.map_eq_nil_iff.mp hnil] at this
      cases this

theorem head_plus {u s : List α} (hne : u ≠ []) (hu : ∀ c ∈ u, p c = true)
    (hs : ∀ c ∈ s.head?, p c = false) : (plus p (u ++ s)).head? = some (u, s) := by
  refine head_bind (head_star hu hs) ?_
  rw [if_neg hne]
  rfl

theorem head_word [DecidableEq α] (w s : List α) : (word w (w ++ s)).head? = some ((), s) := by
  simp [word]

theorem of_mem_star {s : List α} {found : List α × List α} (h : found ∈ star p s) :
    s = found.1 ++ found.2 ∧ ∀ c ∈ found.1, p c = true := by
  induction s generalizing found with
  | nil =>
    rw [star, List.mem_singleton] at h
    simp [h]
  | cons c s ih =>
    rw [star] at h
    split_ifs at h with hc
    · rcases List.mem_append.mp h with h | h
      · obtain ⟨inner, hinner, rfl⟩ := List.mem_map.mp h
        obtain ⟨hs, hall⟩ := ih hinner
        exact ⟨congrArg (c :: ·) hs, List.forall_mem_cons.mpr ⟨hc, hall⟩⟩
      · simp [List.mem_singleton.mp h]
    · simp [List.mem_singleton.mp h]

theorem of_mem_plus {s : List α} {found : List α × List α} (h : found ∈ plus p s) :
    s = found.1 ++ found.2 ∧ found.1 ≠ [] ∧ ∀ c ∈ found.1, p c = true := by
  obtain ⟨first, hfirst, h⟩ := mem_bind.mp h
  obtain ⟨hs, hall⟩ := of_mem_star hfirst
  split_ifs at h with hne
  · cases h
  · obtain rfl := List.mem_singleton.mp h
    exact ⟨hs, hne, hall⟩

theorem of_mem_word [DecidableEq α] {w s : List α} {found : Unit × List α}
    (h : found ∈ word w s) : s = w ++ found.2 := by
  rw [word] at h
  split_ifs at h with hw
  · obtain ⟨t, rfl⟩ := List.isPrefixOf_iff_prefix.mp hw
    simp [List.mem_singleton.mp h]
  · cases h

end Classes

section Locality

variable {after : List α}

/-- The text after a word changes nothing in what the matcher takes from it. -/
def Local (after : List α) (m : Matcher α β) : Prop :=
  ∀ s, m (s ++ after) = (m s).map fun found => (found.1, found.2 ++ after)

theorem Local.pure (b : β) : Local after (Pure.pure b : Matcher α β) := fun _ => rfl

theorem Local.bind {m : Matcher α β} {f : β → Matcher α γ} (hm : Local after m)
    (hf : ∀ b, Local after (f b)) : Local after (m >>= f) := by
  intro s
  rw [bind_run, bind_run, hm, List.flatMap_map, List.map_flatMap]
  exact List.flatMap_congr fun found _ => hf found.1 found.2

variable {p : α → Bool} {d : α} {t : List α}

theorem local_star (hd : p d = false) : Local (d :: t) (star p) := by
  intro s
  induction s with
  | nil => simp [star, hd]
  | cons c s ih =>
    rw [List.cons_append, star, star]
    split_ifs with hc
    · rw [ih]
      simp
    · rfl

theorem Local.fail : Local after (fail : Matcher α β) := fun _ => rfl

theorem local_plus (hd : p d = false) : Local (d :: t) (plus p) := by
  refine (local_star hd).bind fun u => ?_
  split_ifs
  · exact Local.fail
  · exact Local.pure u

theorem local_word [DecidableEq α] {w : List α} (hd : d ∉ w) : Local (d :: t) (word w) := by
  intro s
  have hfits : w.isPrefixOf (s ++ d :: t) = w.isPrefixOf s := by
    rw [Bool.eq_iff_iff, List.isPrefixOf_iff_prefix, List.isPrefixOf_iff_prefix]
    refine ⟨fun hpre => ?_, fun hpre => hpre.trans (List.prefix_append _ _)⟩
    rcases List.prefix_or_prefix_of_prefix hpre (List.prefix_append s (d :: t)) with hws | hsw
    · exact hws
    · obtain ⟨v, rfl⟩ := hsw
      obtain ⟨x, hx⟩ := hpre
      rw [List.append_assoc, List.append_cancel_left_eq] at hx
      cases v with
      | nil => simp
      | cons e v =>
        cases hx
        simp at hd
  rw [word, word, hfits]
  split_ifs with hw
  · obtain ⟨u, rfl⟩ := List.isPrefixOf_iff_prefix.mp hw
    simp
  · rfl

theorem star_bind {f : List α → Matcher α γ} (hf : ∀ u c s, p c = true → f u (c :: s) = [])
    (s : List α) : (star p >>= f) s = f (s.takeWhile p) (s.dropWhile p) := by
  induction s generalizing f with
  | nil => simp [bind_run, star]
  | cons c s ih =>
    by_cases hc : p c = true
    · have := ih (f := fun u => f (c :: u)) fun u => hf (c :: u)
      rw [bind_run] at this
      rw [bind_run, star, if_pos hc, List.flatMap_append, List.flatMap_map, this,
        List.takeWhile_cons_of_pos hc, List.dropWhile_cons_of_pos hc]
      simp [hf [] c s hc]
    · rw [bind_run, star, if_neg hc, List.takeWhile_cons_of_neg hc, List.dropWhile_cons_of_neg hc]
      simp

theorem local_star_bind {f : List α → Matcher α γ} (hd : p d = true)
    (hfail : ∀ u c s, p c = true → f u (c :: s) = [])
    (hend : ∀ u, f u [] = [] ∧ f u (t.dropWhile p) = [])
    (hf : ∀ u, Local (d :: t) (f u)) : Local (d :: t) (star p >>= f) := by
  intro s
  rw [star_bind hfail, star_bind hfail]
  by_cases hs : ∀ c ∈ s, p c = true
  · rw [List.dropWhile_append_of_pos hs, List.dropWhile_cons_of_pos hd, (hend _).2,
      List.dropWhile_eq_nil_iff.mpr hs, (hend _).1]
    rfl
  · have hcut : s.dropWhile p ≠ [] := fun hnil => hs (List.dropWhile_eq_nil_iff.mp hnil)
    have hdrop : (s ++ d :: t).dropWhile p = s.dropWhile p ++ d :: t := by
      rw [List.dropWhile_append]
      simp [hcut]
    have htake : (s ++ d :: t).takeWhile p = s.takeWhile p := by
      rw [List.takeWhile_append, if_neg]
      intro hlen
      have hwhole := (List.takeWhile_prefix p (l := s)).eq_of_length hlen
      exact hs (List.takeWhile_eq_self_iff.mp hwhole)
    rw [hdrop, htake]
    exact hf _ _

theorem local_plus_bind {f : List α → Matcher α γ} (hd : p d = true)
    (hfail : ∀ u c s, p c = true → f u (c :: s) = [])
    (hend : ∀ u, f u [] = [] ∧ f u (t.dropWhile p) = [])
    (hf : ∀ u, Local (d :: t) (f u)) : Local (d :: t) (plus p >>= f) := by
  rw [plus_bind]
  refine local_star_bind hd (fun u c s hc => ?_) (fun u => ?_) fun u => ?_
  · split_ifs
    · rfl
    · exact hfail u c s hc
  · split_ifs
    · exact ⟨rfl, rfl⟩
    · exact hend u
  · split_ifs
    · exact Local.fail
    · exact hf u

end Locality

section Search

variable [DecidableEq α] {sep : α} {m : Matcher α β} {s t : List α}

/-- The search for a pattern tied to the start of a line, from a place with so many letters of
the last match still to pass; the flag says whether the place is the start of a line. -/
def scan (sep : α) (m : Matcher α β) : Nat → Bool → List α → List β
  | _, _, [] => []
  | skip + 1, _, c :: s => scan sep m skip (decide (c = sep)) s
  | 0, start, c :: s =>
    match if start then (m (c :: s)).head? else none with
    | some (b, rest) => b :: scan sep m (s.length - rest.length) (decide (c = sep)) s
    | none => scan sep m 0 (decide (c = sep)) s

/-- All matches, for a pattern tied to the start of a line that takes at least one letter. -/
def findAll (sep : α) (m : Matcher α β) (s : List α) : List β := scan sep m 0 true s

theorem scan_pass {x : List α} (hx : sep ∉ x) (s : List α) :
    scan sep m x.length false (x ++ s) = scan sep m 0 false s := by
  induction x with
  | nil => rfl
  | cons c x ih =>
    have hc := List.ne_of_not_mem_cons hx
    have hx := List.not_mem_of_not_mem_cons hx
    rw [List.length_cons, List.cons_append, scan, decide_eq_false fun h => hc h.symm]
    exact ih hx

theorem scan_inside {x : List α} (hx : sep ∉ x) (t : List α) :
    scan sep m 0 false (x ++ sep :: t) = scan sep m 0 true t := by
  induction x with
  | nil => simp [scan]
  | cons c x ih =>
    have hc := List.ne_of_not_mem_cons hx
    have hx := List.not_mem_of_not_mem_cons hx
    rw [List.cons_append, scan, decide_eq_false fun h => hc h.symm]
    exact ih hx

theorem findAll_skip_line {x : List α} (hx : sep ∉ x) (hm : m (x ++ sep :: t) = []) :
    findAll sep m (x ++ sep :: t) = findAll sep m t := by
  cases x with
  | nil =>
    rw [List.nil_append] at hm ⊢
    simp [findAll, scan, hm]
  | cons c x =>
    have hc := List.ne_of_not_mem_cons hx
    have hx := List.not_mem_of_not_mem_cons hx
    rw [findAll, List.cons_append, scan, ← List.cons_append, hm, decide_eq_false fun h => hc h.symm]
    exact scan_inside hx t

theorem findAll_line {x more : List α} {b : β} (hne : x ≠ []) (hx : sep ∉ x) (hmore : sep ∉ more)
    (hm : (m (x ++ (more ++ sep :: t))).head? = some (b, more ++ sep :: t)) :
    findAll sep m (x ++ (more ++ sep :: t)) = b :: findAll sep m t := by
  obtain ⟨c, x, rfl⟩ := List.exists_cons_of_ne_nil hne
  have hc := List.ne_of_not_mem_cons hx
  have hx := List.not_mem_of_not_mem_cons hx
  rw [findAll, List.cons_append, scan, ← List.cons_append, if_pos rfl, hm,
    decide_eq_false fun h => hc h.symm]
  have hlen : (x ++ (more ++ sep :: t)).length - (more ++ sep :: t).length = x.length := by
    rw [List.length_append, Nat.add_sub_cancel]
  simp only [hlen]
  rw [scan_pass hx, scan_inside hmore]
  rfl

theorem scan_append (hlocal : Local (sep :: t) m) (hm : m (sep :: t) = []) (start : Bool)
    {skip : Nat} (hskip : skip ≤ s.length) :
    scan sep m skip start (s ++ sep :: t) = scan sep m skip start s ++ findAll sep m t := by
  induction s generalizing skip start with
  | nil =>
    obtain rfl := Nat.le_zero.mp hskip
    cases start <;> simp [scan, findAll, hm]
  | cons c s ih =>
    rw [List.cons_append]
    cases skip with
    | succ skip => exact ih _ (Nat.le_of_succ_le_succ hskip)
    | zero =>
      rw [scan, scan, ← List.cons_append, hlocal, List.head?_map]
      cases start with
      | false => exact ih _ (Nat.zero_le _)
      | true =>
        cases hfound : (m (c :: s)).head? with
        | none => simpa [hfound] using ih _ (Nat.zero_le _)
        | some found =>
          have hlen : (s ++ sep :: t).length - (found.2 ++ sep :: t).length =
              s.length - found.2.length := by
            rw [List.length_append, List.length_append, Nat.add_sub_add_right]
          simp only [if_true, Option.map_some, hlen, List.cons_append]
          rw [ih _ (Nat.sub_le _ _)]

theorem findAll_append (hlocal : Local (sep :: t) m) (hm : m (sep :: t) = []) (s : List α) :
    findAll sep m (s ++ sep :: t) = findAll sep m s ++ findAll sep m t :=
  scan_append hlocal hm true (Nat.zero_le _)

end Search

end Matcher

end SharedInfra.Sequences
