import Mathlib

/-!
# Ensuring that elements are in a list, by position

A program that makes a list carry given elements by one instruction: if the
element is there do nothing, else insert it at a position (`ensureAt`).  The
first position is 1.

The elements a run puts in are `fresh`; a run at position 1 stacks them on top
of the list, a run at position 2 under its first element.  `arrange` is the
program that stacks `low` on top, puts `top` above it and then stacks `mid`
under `top`; `arrange_sublist_iff` says from which lists it reaches the order
`top :: mid ++ low`.
-/

namespace SharedInfra.Sequences

variable {α : Type} [DecidableEq α]

/-- Do nothing if the element is in the list, else insert it at a position, counted from
1; `none` where the list is too short for the position. -/
def ensureAt (pos : Nat) (x : α) (xs : List α) : Option (List α) :=
  if x ∈ xs then some xs
  else if pos ≤ xs.length + 1 then some (xs.insertIdx (pos - 1) x) else none

/-- Ensure one element after the other at the same position. -/
def ensureAll (pos : Nat) : List α → List α → Option (List α)
  | [], xs => some xs
  | w :: ws, xs => (ensureAt pos w xs).bind (ensureAll pos ws)

/-- The elements a run over `ws` puts into `xs`, the last one put in first. -/
def fresh : List α → List α → List α
  | [], _ => []
  | w :: ws, xs => if w ∈ xs then fresh ws xs else fresh ws (w :: xs) ++ [w]

theorem fresh_congr (ws : List α) {xs ys : List α} (h : ∀ a, a ∈ xs ↔ a ∈ ys) :
    fresh ws xs = fresh ws ys := by
  induction ws generalizing xs ys with
  | nil => rfl
  | cons w ws ih =>
    have hcons : ∀ a, a ∈ w :: xs ↔ a ∈ w :: ys := fun a => by simp [h]
    simp only [fresh, h w, ih h, ih hcons]

theorem mem_fresh {ws xs : List α} {a : α} : a ∈ fresh ws xs ↔ a ∈ ws ∧ a ∉ xs := by
  induction ws generalizing xs with
  | nil => simp [fresh]
  | cons w ws ih =>
    rw [fresh]
    split_ifs with hw
    · rw [ih, List.mem_cons]
      constructor
      · exact fun h => ⟨Or.inr h.1, h.2⟩
      · rintro ⟨rfl | h, hx⟩
        · exact absurd hw hx
        · exact ⟨h, hx⟩
    · rw [List.mem_append, ih, List.mem_singleton, List.mem_cons, List.mem_cons]
      constructor
      · rintro (⟨h, hx⟩ | rfl)
        · exact ⟨Or.inr h, fun hax => hx (Or.inr hax)⟩
        · exact ⟨Or.inl rfl, hw⟩
      · rintro ⟨rfl | h, hx⟩
        · exact Or.inr rfl
        · by_cases haw : a = w
          · exact Or.inr haw
          · exact Or.inl ⟨h, by simp [haw, hx]⟩

theorem nodup_fresh (ws xs : List α) : (fresh ws xs).Nodup := by
  induction ws generalizing xs with
  | nil => simp [fresh]
  | cons w ws ih =>
    rw [fresh]
    split_ifs with hw
    · exact ih xs
    · refine List.nodup_append.mpr ⟨ih (w :: xs), List.nodup_singleton w, ?_⟩
      intro a ha b hb
      rw [List.mem_singleton] at hb
      rintro rfl
      exact (mem_fresh.mp ha).2 (by simp [hb])

theorem fresh_eq_nil {ws xs : List α} (h : ∀ w ∈ ws, w ∈ xs) : fresh ws xs = [] := by
  rw [List.eq_nil_iff_forall_not_mem]
  intro a ha
  exact (mem_fresh.mp ha).2 (h a (mem_fresh.mp ha).1)

theorem fresh_append (ws ws' xs : List α) :
    fresh (ws ++ ws') xs = fresh ws' (fresh ws xs ++ xs) ++ fresh ws xs := by
  induction ws generalizing xs with
  | nil => simp [fresh]
  | cons w ws ih =>
    rw [List.cons_append, fresh, fresh]
    split_ifs with hw
    · exact ih xs
    · rw [ih (w :: xs)]
      simp

theorem fresh_eq_reverse {ws xs : List α} (hnodup : ws.Nodup) (h : ∀ w ∈ ws, w ∉ xs) :
    fresh ws xs = ws.reverse := by
  induction ws generalizing xs with
  | nil => rfl
  | cons w ws ih =>
    obtain ⟨hw, hnodup'⟩ := List.nodup_cons.mp hnodup
    rw [fresh, if_neg (h w (by simp)), List.reverse_cons, ih hnodup']
    intro v hv
    have hne : v ≠ w := fun heq => hw (heq ▸ hv)
    simp [hne, h v (List.mem_cons_of_mem _ hv)]

theorem fresh_reverse_append {ms ss xs : List α} (hnodup : ms.Nodup)
    (hnew : ∀ m ∈ ms, m ∉ xs) (hold : ∀ s ∈ ss, s ∈ xs) :
    fresh (ms ++ ss).reverse xs = ms := by
  have hskip : fresh ss.reverse xs = [] := fresh_eq_nil (by simpa using hold)
  rw [List.reverse_append, fresh_append, hskip, List.append_nil, List.nil_append,
    fresh_eq_reverse (List.nodup_reverse.mpr hnodup), List.reverse_reverse]
  simpa using hnew

/-- The elements `ms` are what a run has to put in: different, and not among `ss`. -/
def Missing (ms ss : List α) : Prop := ms.Nodup ∧ ∀ m ∈ ms, m ∉ ss

theorem missing_fresh (ws xs : List α) : Missing (fresh ws xs) xs :=
  ⟨nodup_fresh ws xs, fun _ hm => (mem_fresh.mp hm).2⟩

omit [DecidableEq α] in
theorem Missing.append {ms ms' ss : List α} (h : Missing ms ss) (h' : Missing ms' (ms ++ ss)) :
    Missing (ms' ++ ms) ss := by
  refine ⟨List.nodup_append.mpr ⟨h'.1, h.1, ?_⟩, ?_⟩
  · rintro a ha b hb rfl
    exact h'.2 a ha (List.mem_append_left _ hb)
  · intro m hm
    rcases List.mem_append.mp hm with hm | hm
    · exact fun hs => h'.2 m hm (List.mem_append_right _ hs)
    · exact h.2 m hm

omit [DecidableEq α] in
theorem Missing.of_subset {ms ss ss' : List α} (h : Missing ms ss) (hsub : ss' ⊆ ss) :
    Missing ms ss' :=
  ⟨h.1, fun m hm hs => h.2 m hm (hsub hs)⟩

omit [DecidableEq α] in
theorem Missing.perm {ms ms' ss : List α} (h : Missing ms ss) (hp : ms'.Perm ms) :
    Missing ms' ss :=
  ⟨hp.nodup_iff.mpr h.1, fun m hm => h.2 m (hp.mem_iff.mp hm)⟩

theorem ensureAll_one (ws xs : List α) : ensureAll 1 ws xs = some (fresh ws xs ++ xs) := by
  induction ws generalizing xs with
  | nil => rfl
  | cons w ws ih =>
    rw [ensureAll, ensureAt, fresh]
    split_ifs with hw hlen
    · exact ih xs
    · simp only [Nat.sub_self, List.insertIdx_zero, Option.bind_some, ih]
      simp
    · simp at hlen

theorem ensureAll_two (ws : List α) (x : α) (xs : List α) :
    ensureAll 2 ws (x :: xs) = some (x :: (fresh ws (x :: xs) ++ xs)) := by
  induction ws generalizing xs with
  | nil => rfl
  | cons w ws ih =>
    rw [ensureAll, ensureAt, fresh]
    split_ifs with hw hlen
    · exact ih xs
    · simp only [Nat.reduceSub, List.insertIdx_succ_cons, List.insertIdx_zero, Option.bind_some, ih]
      have hsame : fresh ws (x :: w :: xs) = fresh ws (w :: x :: xs) :=
        fresh_congr ws fun a => by simp only [List.mem_cons]; tauto
      simp [hsame]
    · simp at hlen

theorem ensureAll_append (pos : Nat) (ws ws' xs : List α) :
    ensureAll pos (ws ++ ws') xs = (ensureAll pos ws xs).bind (ensureAll pos ws') := by
  induction ws generalizing xs with
  | nil => rfl
  | cons w ws ih =>
    simp only [List.cons_append, ensureAll, Option.bind_assoc]
    congr 1
    funext ys
    exact ih ys

@[simp] theorem ensureAll_nil (pos : Nat) (xs : List α) : ensureAll pos [] xs = some xs := rfl

theorem ensureAll_singleton (pos : Nat) (w : α) (xs : List α) :
    ensureAll pos [w] xs = ensureAt pos w xs := by
  rw [ensureAll]
  cases ensureAt pos w xs <;> rfl

theorem ensureAll_of_mem {pos : Nat} {ws xs : List α} (h : ∀ w ∈ ws, w ∈ xs) :
    ensureAll pos ws xs = some xs := by
  induction ws with
  | nil => rfl
  | cons w ws ih =>
    rw [ensureAll, ensureAt, if_pos (h w (by simp)), Option.bind_some]
    exact ih fun v hv => h v (List.mem_cons_of_mem _ hv)

/-- Stack `low` on top of the list, put `top` above it and stack `mid` under `top`.  Each
part is worked through from its end, so that it comes to stand in its own order. -/
def arrange (top : α) (mid low xs : List α) : Option (List α) :=
  ((ensureAll 1 low.reverse xs).bind (ensureAt 1 top)).bind (ensureAll 2 mid.reverse)

section Arrange

variable {top : α} {mid low xs : List α}

theorem arrange_eq :
    arrange top mid low xs = let stacked := fresh low.reverse xs ++ xs
      if top ∈ stacked then ensureAll 2 mid.reverse stacked
      else some (top :: (fresh mid.reverse (top :: stacked) ++ stacked)) := by
  simp only [arrange, ensureAll_one, Option.bind_some, ensureAt]
  split_ifs with htop hlen
  · rfl
  · rw [Option.bind_some, Nat.sub_self, List.insertIdx_zero, ensureAll_two]
  · simp at hlen

theorem arrange_isSome (top : α) (mid low xs : List α) :
    ∃ ys, arrange top mid low xs = some ys ∧ (∀ a ∈ xs, a ∈ ys) ∧
      ∀ a ∈ top :: (mid ++ low), a ∈ ys := by
  have hlow : ∀ a ∈ low, a ∈ fresh low.reverse xs ++ xs := by
    intro a ha
    by_cases hx : a ∈ xs
    · exact List.mem_append_right _ hx
    · exact List.mem_append_left _ (mem_fresh.mpr ⟨by simpa using ha, hx⟩)
  have hmid : ∀ (first : α) rest, ∀ a ∈ mid,
      a ∈ first :: (fresh mid.reverse (first :: rest) ++ rest) := by
    intro first rest a ha
    by_cases hx : a ∈ first :: rest
    · rcases List.mem_cons.mp hx with rfl | hx
      · simp
      · simp [hx]
    · exact List.mem_cons_of_mem _
        (List.mem_append_left _ (mem_fresh.mpr ⟨by simpa using ha, hx⟩))
  rw [arrange_eq]
  set stacked := fresh low.reverse xs ++ xs with hstacked
  have hxs : ∀ a ∈ xs, a ∈ stacked := fun a ha => List.mem_append_right _ ha
  dsimp only
  split_ifs with htop
  · obtain ⟨first, rest, hcons⟩ := List.exists_cons_of_ne_nil (List.ne_nil_of_mem htop)
    rw [hcons, ensureAll_two]
    have hkeep : ∀ a ∈ stacked, a ∈ first :: (fresh mid.reverse (first :: rest) ++ rest) := by
      intro a ha
      rw [hcons] at ha
      rcases List.mem_cons.mp ha with rfl | ha
      · simp
      · simp [ha]
    refine ⟨_, rfl, fun a ha => hkeep a (hxs a ha), ?_⟩
    intro a ha
    rcases List.mem_cons.mp ha with rfl | ha
    · exact hkeep _ htop
    · rcases List.mem_append.mp ha with ha | ha
      · exact hmid first rest a ha
      · exact hkeep a (hlow a ha)
  · refine ⟨_, rfl, fun a ha => by simp [hxs a ha], ?_⟩
    intro a ha
    rcases List.mem_cons.mp ha with rfl | ha
    · simp
    · rcases List.mem_append.mp ha with ha | ha
      · exact hmid top stacked a ha
      · simp [hlow a ha]

theorem arrange_of_mem {ys : List α} (h : ∀ a ∈ top :: (mid ++ low), a ∈ ys) :
    arrange top mid low ys = some ys := by
  have hlow : ∀ w ∈ low.reverse, w ∈ ys := fun w hw => h w (by simp_all)
  have hmid : ∀ w ∈ mid.reverse, w ∈ ys := fun w hw => h w (by simp_all)
  rw [arrange, ensureAll_of_mem hlow, Option.bind_some, ensureAt, if_pos (h top (by simp)),
    Option.bind_some, ensureAll_of_mem hmid]

/-- From which present elements the program reaches its order: the order's end is present
and the rest is put in on top, or `top` is present too and `low` is complete, so that
what is put in comes to stand under `top`. -/
def Restorable (top : α) (mid low present : List α) : Prop :=
  (∃ ms, top :: (mid ++ low) = ms ++ present ∧ Missing ms present) ∨
    ∃ ms rest, present = top :: rest ∧ ms <+: mid ∧ mid ++ low = ms ++ rest ∧ Missing ms present

variable {present foreign : List α}

/-- A list made of a sublist of the order, of new elements of the order that are not in it
and of others holds the order only if it is the order. -/
theorem order_eq_of_sublist {order core new ys : List α} (hsub : present.Sublist order)
    (hmiss : Missing new present) (hnew : ∀ a ∈ new, a ∈ order)
    (hforeign : ∀ a ∈ foreign, a ∉ order) (hcore : core.Perm (new ++ present))
    (hys : ys = core ++ foreign) (h : order.Sublist ys) : order = core := by
  subst hys
  have hin : order.Sublist core := by
    have hfilter := h.filter (fun a => decide (a ∈ order))
    have hself : order.filter (fun a => decide (a ∈ order)) = order :=
      List.filter_eq_self.mpr fun a ha => by simpa using ha
    have hnone : foreign.filter (fun a => decide (a ∈ order)) = [] :=
      List.filter_eq_nil_iff.mpr fun a ha => by simpa using hforeign a ha
    rw [hself, List.filter_append, hnone, List.append_nil] at hfilter
    exact hfilter.trans List.filter_sublist
  -- Each element of the core occurs there at most as often as in the order.
  have hsubperm : (new ++ present).Subperm order := by
    rw [List.subperm_ext_iff]
    intro a ha
    rw [List.count_append]
    by_cases hp : a ∈ present
    · have hzero : new.count a = 0 :=
        List.count_eq_zero.mpr fun hn => hmiss.2 a hn hp
      have := hsub.count_le a
      omega
    · have hzero : present.count a = 0 := List.count_eq_zero.mpr hp
      have hn : a ∈ new := (List.mem_append.mp ha).resolve_right hp
      have hone := List.nodup_iff_count_le_one.mp hmiss.1 a
      have := List.count_pos_iff.mpr (hnew a hn)
      omega
  have hle : core.length ≤ order.length := by
    rw [hcore.length_eq]
    exact hsubperm.length_le
  exact hin.eq_of_length_le hle

/-- What the program leaves where `top` is missing, a start of `low` is missing and, of
`mid`, a start is missing too. -/
theorem arrange_of_top_missing {ms rs ls ss : List α} (hlow : low = ls ++ ss)
    (hmid : mid = ms ++ rs) (hnodup : (top :: (ms ++ ls)).Nodup)
    (hnew : ∀ a ∈ top :: (ms ++ ls), a ∉ xs) (hss : ∀ a ∈ ss, a ∈ xs)
    (hrs : ∀ a ∈ rs, a ∈ xs) :
    arrange top mid low xs = some (top :: (ms ++ (ls ++ xs))) := by
  obtain ⟨htop, hnodup⟩ := List.nodup_cons.mp hnodup
  obtain ⟨hms, hls, hdisj⟩ := List.nodup_append.mp hnodup
  have hstack : fresh low.reverse xs = ls := by
    rw [hlow]
    exact fresh_reverse_append hls (fun l hl => hnew l (by simp [hl])) hss
  have htopnot : top ∉ ls ++ xs := by
    rw [List.mem_append, not_or]
    exact ⟨fun hl => htop (List.mem_append_right _ hl), hnew top (by simp)⟩
  have hunder : fresh mid.reverse (top :: (ls ++ xs)) = ms := by
    rw [hmid]
    refine fresh_reverse_append hms ?_ fun r hr => by simp [hrs r hr]
    intro m hm hmem
    rcases List.mem_cons.mp hmem with rfl | hmem
    · exact htop (List.mem_append_left _ hm)
    · rcases List.mem_append.mp hmem with hl | hx
      · exact hdisj m hm m hl rfl
      · exact hnew m (by simp [hm]) hx
  rw [arrange_eq]
  dsimp only
  rw [hstack, if_neg htopnot, hunder]

theorem arrange_of_top_present {ms rs rest : List α} (hlow : ∀ a ∈ low, a ∈ top :: rest)
    (hmid : mid = ms ++ rs) (hnodup : ms.Nodup) (hnew : ∀ m ∈ ms, m ∉ top :: rest)
    (hrs : ∀ a ∈ rs, a ∈ top :: rest) :
    arrange top mid low (top :: rest) = some (top :: (ms ++ rest)) := by
  have hstack : fresh low.reverse (top :: rest) = [] := fresh_eq_nil (by simpa using hlow)
  have hunder : fresh mid.reverse (top :: rest) = ms := by
    rw [hmid]
    exact fresh_reverse_append hnodup hnew hrs
  rw [arrange_eq]
  dsimp only
  rw [hstack, List.nil_append, if_pos (List.mem_cons_self ..), ensureAll_two, hunder]

theorem arrange_of_restorable (hforeign : ∀ a ∈ foreign, a ∉ top :: (mid ++ low))
    (h : Restorable top mid low present) :
    arrange top mid low (present ++ foreign) = some (top :: (mid ++ low) ++ foreign) := by
  have hnew : ∀ {ms : List α}, Missing ms present → (∀ m ∈ ms, m ∈ top :: (mid ++ low)) →
      ∀ m ∈ ms, m ∉ present ++ foreign := by
    intro ms hms hin m hm hmem
    rcases List.mem_append.mp hmem with hp | hf
    · exact hms.2 m hm hp
    · exact hforeign m hf (hin m hm)
  have hthere : ∀ {ss : List α}, (∀ a ∈ ss, a ∈ present) → ∀ a ∈ ss, a ∈ present ++ foreign :=
    fun hss a ha => List.mem_append_left _ (hss a ha)
  rcases h with ⟨ms, horder, hms⟩ | ⟨ms, rest, rfl, ⟨rs, hmid⟩, horder, hms⟩
  · have hin : ∀ m ∈ ms, m ∈ top :: (mid ++ low) := fun m hm => by
      rw [horder]
      exact List.mem_append_left _ hm
    cases ms with
    | nil =>
      rw [List.nil_append] at horder
      rw [horder]
      exact arrange_of_mem fun a ha => List.mem_append_left _ (horder ▸ ha)
    | cons m ms =>
      have hnotin := hnew hms hin
      rw [List.cons_append, List.cons.injEq] at horder
      obtain ⟨rfl, horder⟩ := horder
      rcases List.append_eq_append_iff.mp horder with ⟨ls, rfl, hlow⟩ | ⟨ls, hmid, rfl⟩
      · -- A start of `low` is missing, and with it all of `mid`.
        have hmid : mid = mid ++ [] := (List.append_nil mid).symm
        rw [arrange_of_top_missing hlow hmid hms.1 hnotin (hthere fun a ha => ha) (by simp), hlow]
        simp
      · -- Only a start of `mid` is missing.
        have hlow : low = [] ++ low := rfl
        have hrun := arrange_of_top_missing hlow hmid (by simpa using hms.1)
          (by simpa using hnotin) (hthere fun a ha => List.mem_append_right _ ha)
          (hthere fun a ha => List.mem_append_left _ ha)
        rw [hrun, hmid]
        simp
  · have hrest : rest = rs ++ low := by
      rw [← hmid, List.append_assoc] at horder
      exact (List.append_cancel_left horder).symm
    have hnotin := hnew hms fun m hm => by simp [← hmid, hm]
    have hlow : ∀ a ∈ low, a ∈ top :: (rest ++ foreign) := by simp +contextual [hrest]
    have hrs : ∀ a ∈ rs, a ∈ top :: (rest ++ foreign) := by simp +contextual [hrest]
    have hrun := arrange_of_top_present hlow hmid.symm hms.1 hnotin hrs
    rw [List.cons_append, hrun, ← hmid, hrest]
    simp

omit [DecidableEq α] in
/-- With `low` complete and `top` the first present element, the elements put in under it
are a start of `mid`. -/
theorem restorable_of_top_present {under rest : List α}
    (hlow : ∀ a ∈ low, a ∈ top :: rest) (hmiss : Missing under (top :: rest))
    (horder : mid ++ low = under ++ rest) : Restorable top mid low (top :: rest) := by
  refine Or.inr ⟨under, rest, rfl, ?_, horder, hmiss⟩
  rcases List.append_eq_append_iff.mp horder with ⟨ls, hunder, hlows⟩ | ⟨ls, hmid, _⟩
  · have hnil : ls = [] := by
      rw [List.eq_nil_iff_forall_not_mem]
      intro a ha
      exact hmiss.2 a (by simp [hunder, ha]) (hlow a (by simp [hlows, ha]))
    rw [hunder, hnil, List.append_nil]
  · exact ⟨ls, hmid.symm⟩

theorem restorable_of_sublist (hsub : present.Sublist (top :: (mid ++ low)))
    (hforeign : ∀ a ∈ foreign, a ∉ top :: (mid ++ low)) {ys : List α}
    (hys : arrange top mid low (present ++ foreign) = some ys)
    (horder : (top :: (mid ++ low)).Sublist ys) : Restorable top mid low present := by
  rw [arrange_eq] at hys
  dsimp only at hys
  have hpres : present ⊆ present ++ foreign := List.subset_append_left _ _
  have hstack := missing_fresh low.reverse (present ++ foreign)
  have hlow : ∀ a ∈ low, a ∉ present ++ foreign → a ∈ fresh low.reverse (present ++ foreign) :=
    fun a ha hx => mem_fresh.mpr ⟨by simpa using ha, hx⟩
  have hstackLow : ∀ a ∈ fresh low.reverse (present ++ foreign), a ∈ low :=
    fun a ha => by simpa using (mem_fresh.mp ha).1
  have hunderMid : ∀ xs, ∀ a ∈ fresh mid.reverse xs, a ∈ mid :=
    fun xs a ha => by simpa using (mem_fresh.mp ha).1
  generalize fresh low.reverse (present ++ foreign) = stacked at hys hstack hlow hstackLow
  split_ifs at hys with htop
  · cases stacked with
    | nil =>
      cases present with
      | nil => exact absurd (by simp) (hforeign top (by simpa using htop))
      | cons first rest =>
        rw [List.nil_append, List.cons_append, ensureAll_two] at hys
        have hmid := hunderMid (first :: (rest ++ foreign))
        have hunder := missing_fresh mid.reverse (first :: (rest ++ foreign))
        generalize fresh mid.reverse (first :: (rest ++ foreign)) = under
          at hys hunder hmid
        have hmiss : Missing under (first :: rest) := hunder.of_subset hpres
        have heq := order_eq_of_sublist hsub hmiss (fun a ha => by simp [hmid a ha])
          hforeign List.perm_middle.symm (by simpa using hys.symm) horder
        rw [List.cons.injEq] at heq
        obtain ⟨rfl, heq⟩ := heq
        refine restorable_of_top_present ?_ hmiss heq
        intro a ha
        by_contra hnot
        refine absurd (hlow a ha ?_) (by simp)
        intro hmem
        rcases List.mem_append.mp hmem with hp | hf
        · exact hnot hp
        · exact hforeign a hf (by simp [ha])
    | cons first stacked =>
      -- Something of `low` was put on top while `top` was there: `top` is not first.
      rw [List.cons_append, ensureAll_two] at hys
      have hmid := hunderMid (first :: (stacked ++ (present ++ foreign)))
      have hunder := missing_fresh mid.reverse (first :: (stacked ++ (present ++ foreign)))
      generalize fresh mid.reverse (first :: (stacked ++ (present ++ foreign))) = under
        at hys hunder hmid
      have hall := hstack.append hunder
      have hmiss := hall.of_subset hpres
      have hin : ∀ a ∈ under ++ first :: stacked, a ∈ top :: (mid ++ low) := by
        intro a ha
        rcases List.mem_append.mp ha with ha | ha
        · simp [hmid a ha]
        · simp [hstackLow a ha]
      have hperm : (first :: (under ++ (stacked ++ present))).Perm
          (under ++ first :: stacked ++ present) := by
        rw [List.append_assoc, List.cons_append]
        exact List.perm_middle.symm
      have heq := order_eq_of_sublist hsub hmiss hin hforeign hperm
        (by simpa using hys.symm) horder
      rw [List.cons.injEq] at heq
      obtain ⟨rfl, heq⟩ := heq
      have htwice : top ∈ under ++ (stacked ++ present) := by
        rw [← heq]
        exact List.mem_append_right _ (hstackLow top (by simp))
      rcases List.mem_append.mp htwice with hu | hsp
      · exact absurd (by simp) (hunder.2 top hu)
      · rcases List.mem_append.mp hsp with hs | hp
        · exact absurd hs (List.nodup_cons.mp hstack.1).1
        · exact absurd (hpres hp) (hstack.2 top (by simp))
  · have hmid := hunderMid (top :: (stacked ++ (present ++ foreign)))
    have hunder := missing_fresh mid.reverse (top :: (stacked ++ (present ++ foreign)))
    generalize fresh mid.reverse (top :: (stacked ++ (present ++ foreign))) = under
      at hys hunder hmid
    have htopMissing : Missing [top] (stacked ++ (present ++ foreign)) :=
      ⟨List.nodup_singleton top, by simpa using htop⟩
    have hperm : (top :: (under ++ stacked)).Perm (under ++ [top] ++ stacked) := by
      rw [List.append_assoc]
      exact List.perm_middle.symm
    have hall : Missing (under ++ [top] ++ stacked) (present ++ foreign) :=
      hstack.append (htopMissing.append hunder)
    have hmiss := (hall.of_subset hpres).perm hperm
    have hin : ∀ a ∈ top :: (under ++ stacked), a ∈ top :: (mid ++ low) := by
      intro a ha
      rcases List.mem_cons.mp ha with rfl | ha
      · simp
      · rcases List.mem_append.mp ha with ha | ha
        · simp [hmid a ha]
        · simp [hstackLow a ha]
    have hcore := order_eq_of_sublist hsub hmiss hin hforeign (List.Perm.refl _)
      (by simpa using hys.symm) horder
    exact Or.inl ⟨_, hcore, hmiss⟩

theorem arrange_sublist_iff (hsub : present.Sublist (top :: (mid ++ low)))
    (hforeign : ∀ a ∈ foreign, a ∉ top :: (mid ++ low)) :
    (∃ ys, arrange top mid low (present ++ foreign) = some ys ∧ (top :: (mid ++ low)).Sublist ys) ↔
      Restorable top mid low present := by
  constructor
  · rintro ⟨ys, hys, horder⟩
    exact restorable_of_sublist hsub hforeign hys horder
  · intro h
    exact ⟨_, arrange_of_restorable hforeign h, List.sublist_append_left _ _⟩

end Arrange

end SharedInfra.Sequences
