import SharedInfra.Python.IpText

/-!
# The text of an address is read back

`ipv4Value` of `ipv4Text` and `ipv6Value` of `ipv6Text` give the address again
(`ipv4Value_ipv4Text`, `ipv6Value_ipv6Text`), so one text is one address.
-/

namespace SharedInfra.Python

section Reading

variable {α β : Type} {f : α → Option β} {xs : List α} {ys : List β}

theorem forall₂_of_mapM (h : xs.mapM f = some ys) :
    List.Forall₂ (fun x y => f x = some y) xs ys := by
  induction xs generalizing ys with
  | nil =>
    rw [← Option.some.inj h]
    exact .nil
  | cons a xs ih =>
    rw [List.mapM_cons] at h
    obtain ⟨b, hb, h⟩ := Option.bind_eq_some_iff.mp h
    obtain ⟨bs, hbs, h⟩ := Option.bind_eq_some_iff.mp h
    rw [← Option.some.inj h]
    exact .cons hb (ih hbs)

theorem lt_of_mapM {f : α → Option Nat} {ys : List Nat} (base : Nat) (h : xs.mapM f = some ys)
    (hlt : ∀ x ∈ xs, ∀ y, f x = some y → y < base) : ∀ y ∈ ys, y < base := by
  have hread := forall₂_of_mapM h
  clear h
  induction hread with
  | nil => exact fun y hy => absurd hy List.not_mem_nil
  | cons hhead _ ih =>
    obtain ⟨hx, hxs⟩ := List.forall_mem_cons.mp hlt
    exact List.forall_mem_cons.mpr ⟨hx _ hhead, ih hxs⟩

theorem foldl_lt {base : Nat} {ys : List Nat} (h : ∀ y ∈ ys, y < base) :
    ys.foldl (fun n y => n * base + y) 0 < base ^ ys.length := by
  induction ys using List.reverseRecOn with
  | nil => exact Nat.one_pos
  | append_singleton ys y ih =>
    have hlast : y < base := h y (List.mem_append_right _ (List.mem_singleton_self y))
    have hrest := ih fun z hz => h z (List.mem_append_left _ hz)
    rw [List.foldl_append, List.length_append, List.length_singleton, Nat.pow_succ]
    calc List.foldl (fun n y => n * base + y) 0 ys * base + y
        < List.foldl (fun n y => n * base + y) 0 ys * base + base := Nat.add_lt_add_left hlast _
      _ = (List.foldl (fun n y => n * base + y) 0 ys + 1) * base := (Nat.succ_mul _ _).symm
      _ ≤ base ^ ys.length * base := Nat.mul_le_mul_right _ hrest

theorem isSome_of_mapM (h : xs.mapM f = some ys) : ∀ x ∈ xs, (f x).isSome = true := by
  have hread := forall₂_of_mapM h
  clear h
  induction hread with
  | nil => exact fun x hx => absurd hx List.not_mem_nil
  | cons hhead _ ih => exact List.forall_mem_cons.mpr ⟨Option.isSome_of_eq_some hhead, ih⟩

end Reading

section Bounds

variable {s : Str} {v : Nat}

theorem ipv4Value_lt (h : ipv4Value s = some v) : v < 2 ^ 32 := by
  rw [ipv4Value] at h
  split_ifs at h with hcount
  obtain ⟨bytes, hbytes, rfl⟩ := Option.map_eq_some_iff.mp h
  have hlength := (forall₂_of_mapM hbytes).length_eq
  have hoctets := lt_of_mapM 256 hbytes fun part _ y hy => by
    rw [parseOctet] at hy
    split_ifs at hy with hbad
    rw [← Option.some.inj hy]
    simp only [Bool.or_eq_true, decide_eq_true_eq, not_or] at hbad
    omega
  have hlt := foldl_lt hoctets
  rw [← hlength, not_not.mp hcount] at hlt
  exact hlt

theorem hexDigit_lt {c : Char} {d : Nat} (h : hexDigit c = some d) : d < 16 := by
  rw [hexDigit] at h
  split_ifs at h with hdigit hlower hupper
  · have := toNat_of_isDigit hdigit
    have := Option.some.inj h
    omega
  · have hle : c.toNat ≤ 'f'.toNat := hlower.2
    have hvalue : 'f'.toNat = 102 := rfl
    have := Option.some.inj h
    omega
  · have hle : c.toNat ≤ 'F'.toNat := hupper.2
    have hvalue : 'F'.toNat = 70 := rfl
    have := Option.some.inj h
    omega

theorem parseHextet_lt (h : parseHextet s = some v) : v < 65536 := by
  rw [parseHextet] at h
  split_ifs at h with hbad
  obtain ⟨digits, hdigits, rfl⟩ := Option.map_eq_some_iff.mp h
  have hlength := (forall₂_of_mapM hdigits).length_eq
  have hlt := foldl_lt (lt_of_mapM 16 hdigits fun c _ d hd => hexDigit_lt hd)
  simp only [Bool.or_eq_true, decide_eq_true_eq, not_or] at hbad
  calc List.foldl (fun n d => n * 16 + d) 0 digits < 16 ^ digits.length := hlt
    _ ≤ 16 ^ 4 := Nat.pow_le_pow_right (by decide) (by omega)

theorem ipv6Parts_lt {parts : List (Option Nat × Bool)} (h : ipv6Parts s = some parts) :
    ∀ p ∈ parts, ∀ x, p.1 = some x → x < 65536 := by
  have hread : ∀ texts : List Str, ∀ p ∈ texts.map fun t => (parseHextet t, t.isEmpty),
      ∀ x, p.1 = some x → x < 65536 := by
    intro texts p hp x hx
    obtain ⟨t, -, rfl⟩ := List.mem_map.mp hp
    exact parseHextet_lt hx
  rw [ipv6Parts] at h
  cases hlast : (splitOnChar ':' s).getLast? with
  | none =>
    rw [hlast] at h
    cases h
  | some last =>
    rw [hlast] at h
    dsimp only at h
    split_ifs at h with hfew hdot
    · obtain ⟨v, hv, rfl⟩ := Option.map_eq_some_iff.mp h
      have hbound := ipv4Value_lt hv
      intro p hp x hx
      rcases List.mem_append.mp hp with hp | hp
      · exact hread _ p hp x hx
      · simp only [List.mem_cons, List.not_mem_nil, or_false] at hp
        rcases hp with rfl | rfl
        · have := Option.some.inj hx
          omega
        · have := Option.some.inj hx
          omega
    · rw [← Option.some.inj h]
      exact hread _

theorem hextetsValue_lt {xs : List Nat} (hlength : xs.length = 8) (h : ∀ x ∈ xs, x < 65536) :
    hextetsValue xs < 2 ^ 128 := by
  have hlt := foldl_lt h
  rw [hlength] at hlt
  exact hlt

theorem ipv6SkipValue_lt {parts : List (Option Nat × Bool)} {skip : Nat}
    {firstEmpty lastEmpty : Bool} (hparts : ∀ p ∈ parts, ∀ x, p.1 = some x → x < 65536)
    (h : ipv6SkipValue parts skip firstEmpty lastEmpty = some v) : v < 2 ^ 128 := by
  have hread : ∀ (isEmpty : Bool) (side : List (Option Nat × Bool)) (xs : List Nat), side ⊆ parts →
      (if isEmpty then [] else side).mapM Prod.fst = some xs →
        (if isEmpty then [] else side).length = xs.length ∧ ∀ x ∈ xs, x < 65536 := by
    intro isEmpty side xs hsub hxs
    refine ⟨(forall₂_of_mapM hxs).length_eq, lt_of_mapM _ hxs fun p hp => hparts p ?_⟩
    cases isEmpty with
    | false => exact hsub hp
    | true => cases hp
  simp only [ipv6SkipValue, Option.ite_none_left_eq_some] at h
  obtain ⟨-, hlong, h⟩ := h
  obtain ⟨his, hhis, h⟩ := Option.bind_eq_some_iff.mp h
  obtain ⟨los, hlos, rfl⟩ := Option.map_eq_some_iff.mp h
  obtain ⟨hcountHis, hlessHis⟩ := hread _ _ _ (List.take_subset _ _) hhis
  obtain ⟨hcountLos, hlessLos⟩ := hread _ _ _ (List.drop_subset _ _) hlos
  refine hextetsValue_lt ?_ fun x hx => ?_
  · rw [List.length_append, List.length_append, List.length_replicate, hcountHis, hcountLos]
    omega
  · rcases List.mem_append.mp hx with hx | hx
    · rcases List.mem_append.mp hx with hx | hx
      · exact hlessHis x hx
      · rw [(List.mem_replicate.mp hx).2]
        decide
    · exact hlessLos x hx

theorem ipv6Value_lt (h : ipv6Value s = some v) : v < 2 ^ 128 := by
  rw [ipv6Value] at h
  obtain ⟨parts, hparts, h⟩ := Option.bind_eq_some_iff.mp h
  have hbound := ipv6Parts_lt hparts
  obtain ⟨-, h⟩ := Option.ite_none_left_eq_some.mp h
  split at h
  · obtain ⟨hbad, h⟩ := Option.ite_none_left_eq_some.mp h
    obtain ⟨xs, hxs, rfl⟩ := Option.map_eq_some_iff.mp h
    refine hextetsValue_lt ?_ (lt_of_mapM _ hxs hbound)
    rw [← (forall₂_of_mapM hxs).length_eq]
    simp only [Bool.or_eq_true, bne_iff_ne, ne_eq, not_or, not_not] at hbad
    exact hbad.1.1
  · exact ipv6SkipValue_lt hbound h
  · cases h

end Bounds

theorem decimalValue_decimal (n : Nat) : decimalValue (decimal n) = n := by
  have hread : Nat.ofDigitChars 10 (decimal n) 0 = n :=
    Nat.ofDigitChars_toDigits (by decide) (by decide)
  rw [Nat.ofDigitChars_eq_foldl] at hread
  have hstep : (fun (n : Nat) (c : Char) => n * 10 + (c.toNat - 48)) =
      fun n c => 10 * n + (c.toNat - '0'.toNat) := by
    funext n c
    rw [Nat.mul_comm]
    rfl
  rw [decimalValue, hstep]
  exact hread

theorem head_decimal {n : Nat} (h : 0 < n) : (decimal n).head? ≠ some '0' := by
  induction n using Nat.strong_induction_on with
  | _ n ih =>
    rw [decimal]
    by_cases hlt : n < 10
    · rw [Nat.toDigits_of_lt_base hlt]
      have hall : ∀ n < 10, 0 < n → [n.digitChar].head? ≠ some '0' := by decide
      exact hall n hlt h
    · have hrest := ih (n / 10) (by omega) (by omega)
      rw [Nat.toDigits_of_base_le (by decide) (Nat.le_of_not_lt hlt), List.head?_append]
      obtain ⟨c, rest, hcons⟩ := List.exists_cons_of_ne_nil
        (Nat.toDigits_ne_nil : Nat.toDigits 10 (n / 10) ≠ [])
      rw [decimal, hcons] at hrest
      rw [hcons]
      exact hrest

theorem parseOctet_decimal {n : Nat} (h : n < 256) : parseOctet (decimal n) = some n := by
  have hdigits : isAsciiDigits (decimal n) = true := by
    rw [isAsciiDigits, Bool.and_eq_true, Bool.not_eq_true']
    exact ⟨List.isEmpty_eq_false_iff.mpr Nat.toDigits_ne_nil, List.all_eq_true.mpr fun c hc =>
      Nat.isDigit_of_mem_toDigits (by decide) (by decide) hc⟩
  have hlength : (decimal n).length ≤ 3 :=
    (Nat.length_toDigits_le_iff (by decide) (by decide)).mpr (by omega)
  have hzero : (decide (decimal n ≠ ['0']) && (decimal n).head? == some '0') = false := by
    rw [Bool.and_eq_false_iff]
    by_cases hn : n = 0
    · subst hn
      exact Or.inl (decide_eq_false (not_not.mpr rfl))
    · exact Or.inr (beq_false_of_ne (head_decimal (Nat.pos_of_ne_zero hn)))
  have hlong : decide ((decimal n).length > 3) = false := decide_eq_false (by omega)
  have hlarge : decide (n > 255) = false := decide_eq_false (by omega)
  rw [parseOctet, hdigits, hlong, hzero, decimalValue_decimal, hlarge]
  rfl

theorem dot_not_in_decimal (n : Nat) : '.' ∉ decimal n := fun h => by
  have hdigit : '.'.isDigit = true := Nat.isDigit_of_mem_toDigits (by decide) (by decide) h
  exact absurd hdigit (by decide)

theorem ipv4Value_ipv4Text {value : Nat} (h : value < 2 ^ 32) :
    ipv4Value (ipv4Text value) = some value := by
  have hsplit : splitOnChar '.' (ipv4Text value) =
      [value / 2 ^ 24, value / 2 ^ 16 % 256, value / 2 ^ 8 % 256, value % 256].map decimal := by
    refine splitOnChar_joinWith (List.cons_ne_nil _ _) fun piece hpiece => ?_
    obtain ⟨n, -, rfl⟩ := List.mem_map.mp hpiece
    exact dot_not_in_decimal n
  have hfirst : value / 2 ^ 24 < 256 := by omega
  simp only [ipv4Value, hsplit, List.map_cons, List.map_nil, List.length_cons, List.length_nil,
    List.mapM_cons, List.mapM_nil, parseOctet_decimal hfirst,
    parseOctet_decimal (Nat.mod_lt _ (by decide : 0 < 256))]
  rw [if_neg (by decide)]
  simp only [Option.pure_def, Option.bind_eq_bind, Option.bind_some, Option.map_some,
    List.foldl_cons, List.foldl_nil, Option.some.injEq]
  omega

theorem hexDigit_digitChar {d : Nat} (h : d < 16) : hexDigit d.digitChar = some d := by
  have hall : ∀ d < 16, hexDigit d.digitChar = some d := by decide
  exact hall d h

theorem mapM_hexDigit (n : Nat) : ∃ digits, (Nat.toDigits 16 n).mapM hexDigit = some digits ∧
    digits.foldl (fun n d => n * 16 + d) 0 = n := by
  induction n using Nat.strong_induction_on with
  | _ n ih =>
    by_cases h : n < 16
    · refine ⟨[n], ?_, by simp⟩
      rw [Nat.toDigits_of_lt_base h, List.mapM_cons, hexDigit_digitChar h]
      rfl
    · obtain ⟨digits, hread, hvalue⟩ := ih (n / 16) (by omega)
      refine ⟨digits ++ [n % 16], ?_, ?_⟩
      · rw [Nat.toDigits_of_base_le (by decide) (Nat.le_of_not_lt h), List.mapM_append, hread,
          List.mapM_cons, hexDigit_digitChar (Nat.mod_lt _ (by decide))]
        rfl
      · rw [List.foldl_append, hvalue, List.foldl_cons, List.foldl_nil]
        omega

theorem parseHextet_toDigits {n : Nat} (h : n < 65536) :
    parseHextet (Nat.toDigits 16 n) = some n := by
  obtain ⟨digits, hread, hvalue⟩ := mapM_hexDigit n
  have hlength : (Nat.toDigits 16 n).length ≤ 4 :=
    (Nat.length_toDigits_le_iff (by decide) (by decide)).mpr h
  have hne : (Nat.toDigits 16 n).isEmpty = false :=
    List.isEmpty_eq_false_iff.mpr Nat.toDigits_ne_nil
  have hlong : decide ((Nat.toDigits 16 n).length > 4) = false := decide_eq_false (by omega)
  rw [parseHextet, hne, hlong, hread, Option.map_some, hvalue]
  rfl

def hextetNumbers (value : Nat) : List Nat :=
  (List.range 8).map fun i => value / 2 ^ (16 * (7 - i)) % 2 ^ 16

theorem hextets_eq (value : Nat) : hextets value = (hextetNumbers value).map (Nat.toDigits 16) := by
  rw [hextets, hextetNumbers, List.map_map]
  rfl

theorem hextetsValue_hextetNumbers {value : Nat} (h : value < 2 ^ 128) :
    hextetsValue (hextetNumbers value) = value := by
  have hstep : ∀ k, value / 2 ^ (16 * (k + 1)) * 65536 + value / 2 ^ (16 * k) % 2 ^ 16 =
      value / 2 ^ (16 * k) := fun k => by
    have hdiv : value / 2 ^ (16 * (k + 1)) = value / 2 ^ (16 * k) / 65536 := by
      rw [Nat.div_div_eq_div_mul, Nat.mul_succ, Nat.pow_add]
    rw [hdiv]
    omega
  have hfirst : 0 * 65536 + value / 2 ^ (16 * 7) % 2 ^ 16 = value / 2 ^ (16 * 7) := by omega
  have hlist : hextetNumbers value = [7, 6, 5, 4, 3, 2, 1, 0].map fun k =>
      value / 2 ^ (16 * k) % 2 ^ 16 := rfl
  rw [hextetsValue, hlist]
  simp only [List.map_cons, List.map_nil, List.foldl_cons, List.foldl_nil]
  rw [hfirst, hstep 6, hstep 5, hstep 4, hstep 3, hstep 2, hstep 1, hstep 0]
  simp

section Runs

/-- The best run and the one that is being read are zeros of what has been read. -/
structure ZeroRun.Of (parts : List Str) (run : ZeroRun) : Prop where
  index : run.index = parts.length
  best : run.bestStart + run.bestLength ≤ parts.length
  bestZero : ∀ i, run.bestStart ≤ i → i < run.bestStart + run.bestLength → parts[i]? = some ['0']
  length : run.length ≤ parts.length
  zero : ∀ i, parts.length - run.length ≤ i → i < parts.length → parts[i]? = some ['0']

variable {parts : List Str} {run : ZeroRun} {part : Str}

theorem ZeroRun.Of.read (h : run.Of parts) (part : Str) : (run.read part).Of (parts ++ [part]) := by
  have hold : ∀ i, i < parts.length → (parts ++ [part])[i]? = parts[i]? := fun i hi =>
    List.getElem?_append_left hi
  have hbest : ∀ i, run.bestStart ≤ i → i < run.bestStart + run.bestLength →
      (parts ++ [part])[i]? = some ['0'] := fun i hlo hhi => by
    rw [hold i (by have := h.best; omega)]
    exact h.bestZero i hlo hhi
  have hindex := h.index
  have hlength := h.length
  have hlen : (parts ++ [part]).length = parts.length + 1 := List.length_append
  have hbestle := h.best
  by_cases hzero : part = ['0']
  · subst hzero
    have hrun : ∀ i, parts.length - run.length ≤ i → i < parts.length + 1 →
        (parts ++ [['0']])[i]? = some ['0'] := fun i hlo hhi => by
      rcases Nat.lt_succ_iff_lt_or_eq.mp hhi with hlt | rfl
      · rw [hold i hlt]
        exact h.zero i hlo hlt
      · exact List.getElem?_concat_length
    by_cases hbetter : run.bestLength < run.length + 1
    · -- the run that is being read becomes the best
      simp only [ZeroRun.read, if_true, hbetter]
      constructor
      · simp only [hindex, hlen]
      · simp only [hlen]
        omega
      · intro i hlo hhi
        simp only at hlo hhi
        exact hrun i (by omega) (by omega)
      · simp only [hlen]
        omega
      · intro i hlo hhi
        simp only [hlen] at hlo hhi
        exact hrun i (by omega) hhi
    · simp only [ZeroRun.read, if_true, hbetter, if_false]
      constructor
      · simp only [hindex, hlen]
      · simp only [hlen]
        omega
      · exact hbest
      · simp only [hlen]
        omega
      · intro i hlo hhi
        simp only [hlen] at hlo hhi
        exact hrun i (by omega) hhi
  · simp only [ZeroRun.read, hzero, if_false]
    constructor
    · simp only [hindex, hlen]
    · simp only [hlen]
      omega
    · exact hbest
    · exact Nat.zero_le _
    · intro i hlo hhi
      simp only at hlo
      omega

theorem ZeroRun.Of.foldl (h : run.Of parts) (rest : List Str) :
    (rest.foldl ZeroRun.read run).Of (parts ++ rest) := by
  induction rest generalizing parts run with
  | nil =>
    rw [List.append_nil]
    exact h
  | cons part rest ih =>
    rw [List.foldl_cons, List.append_cons]
    exact ih (h.read part)

theorem zeroRun_of (parts : List Str) : (parts.foldl ZeroRun.read ⟨0, 0, 0, 0⟩).Of parts := by
  have hstart : (⟨0, 0, 0, 0⟩ : ZeroRun).Of [] :=
    ⟨rfl, le_rfl, fun i _ hi => absurd hi (Nat.not_lt_zero i), le_rfl,
      fun i _ hi => absurd hi (Nat.not_lt_zero i)⟩
  exact hstart.foldl parts

end Runs

section Compressed

/-- How a part is read: its value, and whether it is empty. -/
def readPart (part : Str) : Option Nat × Bool := (parseHextet part, part.isEmpty)

def Numbers (parts : List Str) (xs : List Nat) : Prop :=
  List.Forall₂ (fun part x => parseHextet part = some x ∧ part ≠ [] ∧ ':' ∉ part ∧ '.' ∉ part) parts xs

variable {parts front back side other : List Str} {xs ys : List Nat} {part : Str}

theorem Numbers.of_mem (h : Numbers parts xs) (hpart : part ∈ parts) :
    part.isEmpty = false ∧ ':' ∉ part ∧ '.' ∉ part := by
  induction h with
  | nil => cases hpart
  | cons hhead _ ih =>
    obtain rfl | hpart := List.mem_cons.mp hpart
    · exact ⟨List.isEmpty_eq_false_iff.mpr hhead.2.1, hhead.2.2⟩
    · exact ih hpart

theorem mapM_readPart (h : Numbers parts xs) : (parts.map readPart).mapM Prod.fst = some xs := by
  induction h with
  | nil => rfl
  | cons hhead _ ih =>
    rw [List.map_cons, List.mapM_cons, ih, readPart, hhead.1]
    rfl

inductive Side : List Str → List Nat → Prop
  | gap : Side [[]] []
  | numbers {parts : List Str} {xs : List Nat} (hne : parts ≠ []) (h : Numbers parts xs) :
      Side parts xs

theorem Side.ne_nil (h : Side side xs) : side ≠ [] := by
  cases h with
  | gap => exact List.cons_ne_nil _ _
  | numbers hne _ => exact hne

theorem Side.of_mem (h : Side side xs) (hpart : part ∈ side) : ':' ∉ part ∧ '.' ∉ part := by
  cases h with
  | gap =>
    obtain rfl := List.mem_singleton.mp hpart
    exact ⟨List.not_mem_nil, List.not_mem_nil⟩
  | numbers _ h => exact (h.of_mem hpart).2

theorem ipv6Parts_sides (hfront : Side side xs) (hback : Side other ys) :
    ipv6Parts (joinWith [':'] (side ++ [] :: other)) =
      some (side.map readPart ++ readPart [] :: other.map readPart) := by
  have hsplit : splitOnChar ':' (joinWith [':'] (side ++ [] :: other)) = side ++ [] :: other := by
    refine splitOnChar_joinWith (List.append_ne_nil_of_left_ne_nil hfront.ne_nil _) ?_
    intro piece hpiece
    obtain hpiece | hpiece := List.mem_append.mp hpiece
    · exact (hfront.of_mem hpiece).1
    · obtain rfl | hpiece := List.mem_cons.mp hpiece
      · exact List.not_mem_nil
      · exact (hback.of_mem hpiece).1
  obtain ⟨last, hlast⟩ := List.getLast?_isSome.mpr hback.ne_nil |> Option.isSome_iff_exists.mp
  have hlast' : (side ++ [] :: other).getLast? = some last := by
    rw [List.getLast?_append, List.getLast?_cons, hlast]
    rfl
  have hdot : last.contains '.' = false := by
    rw [List.contains_eq_mem]
    exact decide_eq_false (hback.of_mem (List.mem_of_getLast? hlast)).2
  have hlength : ¬(side ++ [] :: other).length < 3 := by
    have hside := List.length_pos_of_ne_nil hfront.ne_nil
    have hother := List.length_pos_of_ne_nil hback.ne_nil
    rw [List.length_append, List.length_cons]
    omega
  simp only [ipv6Parts, hsplit, hlast', hlength, if_false, hdot, Bool.false_eq_true]
  rw [List.map_append, List.map_cons]
  rfl

theorem inner_sides (hfront : Side side xs) (hback : Side other ys) :
    ((side.map readPart ++ readPart [] :: other.map readPart).zipIdx.filter fun p =>
      p.1.2 && decide (1 ≤ p.2) &&
        decide (p.2 + 1 < (side.map readPart ++ readPart [] :: other.map readPart).length)) =
      [(readPart [], side.length)] := by
  have hside := List.length_pos_of_ne_nil hfront.ne_nil
  have hother := List.length_pos_of_ne_nil hback.ne_nil
  have hlength : (side.map readPart ++ readPart [] :: other.map readPart).length =
      side.length + (other.length + 1) := by
    rw [List.length_append, List.length_cons, List.length_map, List.length_map]
  have hnumbers : ∀ {parts : List Str} {zs : List Nat}, Numbers parts zs → ∀ k, ∀ p ∈
      (parts.map readPart).zipIdx k, p.1.2 = false := fun {parts zs} hparts k p hp => by
    obtain ⟨part, hpart, heq⟩ := List.mem_map.mp (List.fst_mem_of_mem_zipIdx hp)
    rw [← heq]
    exact (hparts.of_mem hpart).1
  rw [hlength, List.zipIdx_append, List.filter_append, List.zipIdx_cons, List.length_map,
    Nat.zero_add, List.filter_cons_of_pos]
  · have hnilFront : ((side.map readPart).zipIdx.filter fun p => p.1.2 && decide (1 ≤ p.2) &&
        decide (p.2 + 1 < side.length + (other.length + 1))) = [] := by
      refine List.filter_eq_nil_iff.mpr fun p hp => ?_
      cases hfront with
      | gap =>
        obtain rfl := List.mem_singleton.mp hp
        simp
      | numbers _ h =>
        rw [hnumbers h 0 p hp]
        simp
    have hnilBack : (((other.map readPart).zipIdx (side.length + 1)).filter fun p =>
        p.1.2 && decide (1 ≤ p.2) && decide (p.2 + 1 < side.length + (other.length + 1))) = [] := by
      refine List.filter_eq_nil_iff.mpr fun p hp => ?_
      cases hback with
      | gap =>
        obtain rfl := List.mem_singleton.mp hp
        simp
      | numbers _ h =>
        rw [hnumbers h _ p hp]
        simp
    rw [hnilFront, hnilBack]
    rfl
  · simp only [readPart, List.isEmpty_nil, Bool.true_and, Bool.and_eq_true, decide_eq_true_eq]
    omega

/-- What is known of a side with the flag for an empty part at its end. -/
def Flagged (side : List Str) (xs : List Nat) (isEmpty : Bool) : Prop :=
  isEmpty = true ∧ side = [[]] ∧ xs = [] ∨ isEmpty = false ∧ Numbers side xs

theorem Side.head (h : Side side xs) (rest : List (Option Nat × Bool)) :
    Flagged side xs (((side.map readPart ++ rest).head?.map (·.2)).getD false) := by
  cases h with
  | gap => exact Or.inl ⟨rfl, rfl, rfl⟩
  | numbers hne h =>
    obtain ⟨part, side, rfl⟩ := List.exists_cons_of_ne_nil hne
    exact Or.inr ⟨(h.of_mem List.mem_cons_self).1, h⟩

theorem Side.last (h : Side side xs) (start : List (Option Nat × Bool)) :
    Flagged side xs (((start ++ side.map readPart).getLast?.map (·.2)).getD false) := by
  obtain ⟨last, hlast⟩ := Option.isSome_iff_exists.mp (List.getLast?_isSome.mpr h.ne_nil)
  have hread : (start ++ side.map readPart).getLast? = some (readPart last) := by
    rw [List.getLast?_append, List.getLast?_map, hlast]
    rfl
  rw [hread]
  cases h with
  | gap =>
    obtain rfl := Option.some.inj hlast
    exact Or.inl ⟨rfl, rfl, rfl⟩
  | numbers hne h => exact Or.inr ⟨(h.of_mem (List.mem_of_getLast? hlast)).1, h⟩

theorem Flagged.mapM {isEmpty : Bool} (h : Flagged side xs isEmpty) :
    (isEmpty && (side.map readPart).length != 1) = false ∧
      (if isEmpty then [] else side.map readPart).mapM Prod.fst = some xs ∧
      (if isEmpty then [] else side.map readPart).length = xs.length := by
  obtain ⟨rfl, rfl, rfl⟩ | ⟨rfl, h⟩ := h
  · exact ⟨rfl, rfl, rfl⟩
  · refine ⟨rfl, mapM_readPart h, ?_⟩
    rw [if_neg Bool.false_ne_true, List.length_map, h.length_eq]

theorem ipv6SkipValue_sides {firstEmpty lastEmpty : Bool} (hfront : Flagged side xs firstEmpty)
    (hback : Flagged other ys lastEmpty) (hlength : xs.length + ys.length ≤ 7) :
    ipv6SkipValue (side.map readPart ++ readPart [] :: other.map readPart) side.length firstEmpty
      lastEmpty =
      some (hextetsValue (xs ++ List.replicate (8 - (xs.length + ys.length)) 0 ++ ys)) := by
  obtain ⟨hfirst, hreadFront, hlengthFront⟩ := hfront.mapM
  obtain ⟨hlast, hreadBack, hlengthBack⟩ := hback.mapM
  have htake : (side.map readPart ++ readPart [] :: other.map readPart).take side.length =
      side.map readPart := List.take_left' (List.length_map _)
  have hdrop : (side.map readPart ++ readPart [] :: other.map readPart).drop (side.length + 1) =
      other.map readPart := by
    rw [List.append_cons]
    refine List.drop_left' ?_
    rw [List.length_append, List.length_map]
    rfl
  rw [ipv6SkipValue]
  simp only [htake, hdrop, hfirst, hlast, Bool.or_self, Bool.false_eq_true, if_false, hlengthFront,
    hlengthBack, hreadFront, hreadBack, Option.bind_some, Option.map_some]
  rw [if_neg (by omega)]

theorem ipv6Value_sides (hfront : Side side xs) (hback : Side other ys)
    (hlength : xs.length + ys.length ≤ 7)
    (hparts : side.length + other.length ≤ 8) :
    ipv6Value (joinWith [':'] (side ++ [] :: other)) =
      some (hextetsValue (xs ++ List.replicate (8 - (xs.length + ys.length)) 0 ++ ys)) := by
  have hlong : ¬(side.map readPart ++ readPart [] :: other.map readPart).length > 9 := by
    rw [List.length_append, List.length_cons, List.length_map, List.length_map]
    omega
  have hfirst := hfront.head (readPart [] :: other.map readPart)
  have hlast := hback.last (side.map readPart ++ [readPart []])
  rw [← List.append_cons] at hlast
  rw [ipv6Value, ipv6Parts_sides hfront hback, Option.bind_some]
  simp only [hlong, if_false, inner_sides hfront hback]
  exact ipv6SkipValue_sides hfirst hlast hlength

theorem ipv6Value_numbers (h : Numbers parts xs) (hlength : parts.length = 8) :
    ipv6Value (joinWith [':'] parts) = some (hextetsValue xs) := by
  have hne : parts ≠ [] := by
    rintro rfl
    cases hlength
  have hsplit : splitOnChar ':' (joinWith [':'] parts) = parts :=
    splitOnChar_joinWith hne fun part hpart => (h.of_mem hpart).2.1
  obtain ⟨last, hlast⟩ := Option.isSome_iff_exists.mp (List.getLast?_isSome.mpr hne)
  have hdot : last.contains '.' = false := by
    rw [List.contains_eq_mem]
    exact decide_eq_false (h.of_mem (List.mem_of_getLast? hlast)).2.2
  have hparts : ipv6Parts (joinWith [':'] parts) = some (parts.map readPart) := by
    simp only [ipv6Parts, hsplit, hlast, hlength, hdot, Bool.false_eq_true, if_false]
    rfl
  have hside : Side parts xs := .numbers hne h
  have hnot : ∀ p ∈ parts.map readPart, p.2 = false := fun p hp => by
    obtain ⟨part, hpart, rfl⟩ := List.mem_map.mp hp
    exact (h.of_mem hpart).1
  have hinner : ((parts.map readPart).zipIdx.filter fun p => p.1.2 && decide (1 ≤ p.2) &&
      decide (p.2 + 1 < (parts.map readPart).length)) = [] := by
    refine List.filter_eq_nil_iff.mpr fun p hp => ?_
    rw [hnot p.1 (List.fst_mem_of_mem_zipIdx hp)]
    simp
  have hhead : (((parts.map readPart).head?.map (·.2)).getD false) = false := by
    cases hget : (parts.map readPart).head? with
    | none => rfl
    | some p => exact hnot p (List.mem_of_mem_head? hget)
  have hend : (((parts.map readPart).getLast?.map (·.2)).getD false) = false := by
    cases hget : (parts.map readPart).getLast? with
    | none => rfl
    | some p => exact hnot p (List.mem_of_getLast? hget)
  have hcount : (parts.map readPart).length = 8 := (List.length_map _).trans hlength
  rw [ipv6Value, hparts, Option.bind_some]
  simp only [hinner, hhead, hend, mapM_readPart h]
  rw [if_neg (by omega), if_neg (by rw [hcount]; decide)]
  rfl

end Compressed

section Addresses

variable {parts : List Str} {xs : List Nat}

theorem colon_not_in_hex {n : Nat} {c : Char} (h : c ∈ Nat.toDigits 16 n) : c ≠ ':' ∧ c ≠ '.' := by
  obtain ⟨digits, hread, -⟩ := mapM_hexDigit n
  have hchar := isSome_of_mapM hread c h
  constructor
  · rintro rfl
    exact absurd hchar (by decide)
  · rintro rfl
    exact absurd hchar (by decide)

theorem numbers_hextets (value : Nat) : Numbers (hextets value) (hextetNumbers value) := by
  rw [hextets_eq, Numbers, List.forall₂_map_left_iff, List.forall₂_same]
  intro x hx
  obtain ⟨i, -, rfl⟩ := List.mem_map.mp hx
  exact ⟨parseHextet_toDigits (Nat.mod_lt _ (by decide)), Nat.toDigits_ne_nil,
    fun h => (colon_not_in_hex h).1 rfl, fun h => (colon_not_in_hex h).2 rfl⟩

theorem Numbers.take (h : Numbers parts xs) (n : Nat) : Numbers (parts.take n) (xs.take n) :=
  List.forall₂_take n h

theorem Numbers.drop (h : Numbers parts xs) (n : Nat) : Numbers (parts.drop n) (xs.drop n) :=
  List.forall₂_drop n h

theorem Numbers.zeros {n : Nat} (h : Numbers (List.replicate n ['0']) xs) :
    xs = List.replicate n 0 := by
  induction n generalizing xs with
  | zero =>
    cases h
    rfl
  | succ n ih =>
    rw [List.replicate_succ] at h ⊢
    cases h with
    | cons hhead htail =>
      have hread : parseHextet ['0'] = some 0 := rfl
      rw [ih htail, ← Option.some.inj (hread.symm.trans hhead.1)]

theorem side_of_numbers (h : Numbers parts xs) :
    Side (if parts = [] then [[]] else parts) xs := by
  split_ifs with hnil
  · subst hnil
    cases h
    exact .gap
  · exact .numbers hnil h

theorem Numbers.run {run : ZeroRun} (h : Numbers parts xs) (hrun : run.Of parts) :
    xs = xs.take run.bestStart ++ List.replicate run.bestLength 0 ++
      xs.drop (run.bestStart + run.bestLength) := by
  have hzeros : (parts.drop run.bestStart).take run.bestLength =
      List.replicate run.bestLength ['0'] := by
    refine List.ext_getElem? fun i => ?_
    rw [List.getElem?_take, List.getElem?_replicate, List.getElem?_drop]
    split_ifs with hi
    · exact hrun.bestZero _ (by omega) (by omega)
    · rfl
  have hmiddle := (h.drop run.bestStart).take run.bestLength
  rw [hzeros] at hmiddle
  rw [← hmiddle.zeros, List.append_assoc, ← List.drop_drop, List.take_append_drop,
    List.take_append_drop]

theorem ipv6Value_compressHextets (h : Numbers parts xs) (hlength : parts.length = 8) :
    ipv6Value (joinWith [':'] (compressHextets parts)) = some (hextetsValue xs) := by
  have hrun := zeroRun_of parts
  have hbest := hrun.best
  rw [compressHextets]
  generalize parts.foldl ZeroRun.read ⟨0, 0, 0, 0⟩ = run at hrun hbest ⊢
  dsimp only
  by_cases hlong : 1 < run.bestLength
  · have hxs : xs.length = 8 := h.length_eq ▸ hlength
    have hfront : (if run.bestStart = 0 then [[]] else []) ++ parts.take run.bestStart =
        if parts.take run.bestStart = [] then [[]] else parts.take run.bestStart := by
      by_cases hstart : run.bestStart = 0
      · rw [hstart]
        rfl
      · have hne : parts.take run.bestStart ≠ [] := by
          rw [← List.length_pos_iff, List.length_take]
          omega
        rw [if_neg hstart, if_neg hne, List.nil_append]
    have hback : ∀ after : List Str, after ++ (if after = [] then [[]] else []) =
        if after = [] then [[]] else after := fun after => by
      split_ifs with hafter
      · rw [hafter]
        rfl
      · exact List.append_nil after
    have hread := ipv6Value_sides (side_of_numbers (h.take run.bestStart))
      (side_of_numbers (h.drop (run.bestStart + run.bestLength)))
      (by rw [List.length_take, List.length_drop]; omega)
      (by
        have hside : ∀ side : List Str, (if side = [] then [[]] else side).length ≤
            side.length + 1 := fun side => by
          split_ifs with hnil
          · exact Nat.le_add_left _ _
          · exact Nat.le_succ _
        have hone := hside (parts.take run.bestStart)
        have htwo := hside (parts.drop (run.bestStart + run.bestLength))
        rw [List.length_take] at hone
        rw [List.length_drop] at htwo
        omega)
    have hcount : 8 - ((xs.take run.bestStart).length +
        (xs.drop (run.bestStart + run.bestLength)).length) = run.bestLength := by
      rw [List.length_take, List.length_drop]
      omega
    rw [hcount, ← h.run hrun] at hread
    simp only [if_pos hlong, hfront, List.append_assoc, hback]
    exact hread
  · rw [if_neg hlong]
    exact ipv6Value_numbers h hlength

theorem ipv6Value_ipv6Text {value : Nat} (h : value < 2 ^ 128) :
    ipv6Value (ipv6Text value) = some value := by
  have hread := ipv6Value_compressHextets (numbers_hextets value) rfl
  rw [hextetsValue_hextetNumbers h] at hread
  exact hread

end Addresses

end SharedInfra.Python
