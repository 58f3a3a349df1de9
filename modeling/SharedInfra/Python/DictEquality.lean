import SharedInfra.Python.Values
import SharedInfra.Sequences.FirstMatch

/-!
# When two dicts are equal

Two dicts are equal exactly when they hold equal values under each name (`same_object_iff`).
-/

namespace SharedInfra.Python
namespace Val

open Sequences

section Fields

variable {d d' fields fields' : Dict} {name other : Str} {value : Val}

theorem lookup_insertField (name : Str) (value : Val) (d : Dict) (other : Str) :
    (insertField name value d).lookup other = if other = name then some value else d.lookup other := by
  induction d with
  | nil =>
    by_cases h : other = name
    · simp [insertField, h]
    · simp [insertField, h]
  | cons field d ih =>
    obtain ⟨third, v⟩ := field
    rw [insertField]
    by_cases h : other = name
    · subst h
      rw [if_pos rfl] at ih ⊢
      split_ifs with heq hlt
      · rw [List.lookup_cons, beq_self_eq_true]
      · rw [List.lookup_cons, beq_self_eq_true]
      · rw [List.lookup_cons, beq_eq_false_iff_ne.mpr heq]
        exact ih
    · rw [if_neg h]
      split_ifs with heq hlt
      · subst heq
        rw [List.lookup_cons, List.lookup_cons, beq_eq_false_iff_ne.mpr h]
      · rw [List.lookup_cons, beq_eq_false_iff_ne.mpr h]
      · rw [List.lookup_cons, List.lookup_cons, ih, if_neg h]

theorem lookup_normalFields (fields : Dict) (name : Str) :
    (normalFields fields).lookup name = (fields.lookup name).map normal := by
  induction fields with
  | nil => rfl
  | cons field fields ih =>
    obtain ⟨other, v⟩ := field
    rw [normalFields, lookup_insertField, List.lookup_cons]
    by_cases h : name = other
    · subst h
      simp
    · rw [if_neg h, beq_eq_false_iff_ne.mpr h]
      exact ih

def Ascending (d : Dict) : Prop := (d.map Prod.fst).Pairwise (· < ·)

theorem mem_keys_insertField (h : other ∈ (insertField name value d).map Prod.fst) :
    other = name ∨ other ∈ d.map Prod.fst := by
  induction d with
  | nil => simpa [insertField] using h
  | cons field d ih =>
    obtain ⟨third, v⟩ := field
    rw [insertField] at h
    split_ifs at h with heq hlt
    · rw [List.map_cons, List.mem_cons] at h
      exact h.imp_right (List.mem_cons_of_mem _)
    · rw [List.map_cons, List.mem_cons] at h
      exact h
    · rw [List.map_cons, List.mem_cons] at h
      obtain h | h := h
      · exact Or.inr (h ▸ List.mem_cons_self)
      · exact (ih h).imp_right (List.mem_cons_of_mem _)

theorem ascending_insertField (name : Str) (value : Val) (h : Ascending d) :
    Ascending (insertField name value d) := by
  induction d with
  | nil => simp [Ascending, insertField]
  | cons field d ih =>
    obtain ⟨third, v⟩ := field
    obtain ⟨hthird, hrest⟩ := List.pairwise_cons.mp h
    rw [insertField]
    split_ifs with heq hlt
    · subst heq
      exact List.pairwise_cons.mpr ⟨hthird, hrest⟩
    · refine List.pairwise_cons.mpr ⟨fun other hother => ?_, h⟩
      obtain rfl | hother := List.mem_cons.mp hother
      · exact hlt
      · exact lt_trans hlt (hthird other hother)
    · refine List.pairwise_cons.mpr ⟨fun other hother => ?_, ih hrest⟩
      obtain rfl | hother := mem_keys_insertField hother
      · exact lt_of_le_of_ne (not_lt.mp hlt) (Ne.symm heq)
      · exact hthird other hother

theorem ascending_normalFields (fields : Dict) : Ascending (normalFields fields) := by
  induction fields with
  | nil => exact List.Pairwise.nil
  | cons field fields ih =>
    obtain ⟨name, v⟩ := field
    exact ascending_insertField name (normal v) ih

theorem nodup_of_ascending (h : Ascending d) : (d.map Prod.fst).Nodup :=
  List.Pairwise.imp (fun hlt => hlt.ne) h

theorem eq_of_lookup (h : Ascending d) (h' : Ascending d')
    (hlookup : ∀ name, d.lookup name = d'.lookup name) : d = d' := by
  have hmem : ∀ field, field ∈ d ↔ field ∈ d' := fun field => by
    rw [← lookup_iff_mem (nodup_of_ascending h), ← lookup_iff_mem (nodup_of_ascending h'), hlookup]
  have hperm : d.Perm d' := (List.perm_ext_iff_of_nodup (List.Nodup.of_map _ (nodup_of_ascending h))
    (List.Nodup.of_map _ (nodup_of_ascending h'))).mpr hmem
  have hpair : ∀ {e : Dict}, Ascending e → e.Pairwise fun a b => a.1 < b.1 := fun he =>
    List.pairwise_map.mp he
  exact hperm.eq_of_pairwise (fun a b _ _ hab hba => absurd hba (lt_asymm hab)) (hpair h) (hpair h')

theorem same_object_iff : same (.object fields) (.object fields') = true ↔
    ∀ name, (fields.lookup name).map normal = (fields'.lookup name).map normal := by
  rw [same_iff, normal, normal, Val.object.injEq]
  constructor
  · intro h name
    rw [← lookup_normalFields, ← lookup_normalFields, h]
  · intro h
    refine eq_of_lookup (ascending_normalFields fields) (ascending_normalFields fields') fun name => ?_
    rw [lookup_normalFields, lookup_normalFields, h]

theorem get?_isSome_iff : (Dict.get? fields name).isSome = true ↔ name ∈ fields.map Prod.fst := by
  rw [Dict.get?, List.mem_map]
  constructor
  · intro h
    obtain ⟨v, hv⟩ := Option.isSome_iff_exists.mp h
    exact ⟨(name, v), mem_of_lookup hv, rfl⟩
  · rintro ⟨field, hfield, rfl⟩
    by_contra hnone
    rw [Bool.not_eq_true, Option.isSome_eq_false_iff, Option.isNone_iff_eq_none,
      List.lookup_eq_none_iff] at hnone
    exact bne_iff_ne.mp (hnone field hfield) rfl

theorem same_members_iff (hnodup : (d.map Prod.fst).Nodup) :
    same (.object fields) (.object d) = true ↔ (∀ field ∈ fields, field.1 ∈ d.map Prod.fst) ∧
        ∀ member ∈ d, ∃ v, Dict.get? fields member.1 = some v ∧ same v member.2 = true := by
  rw [same_object_iff]
  constructor
  · intro h
    refine ⟨fun field hfield => ?_, fun member hmember => ?_⟩
    · have hsome := get?_isSome_iff.mpr (List.mem_map_of_mem (f := Prod.fst) hfield)
      have hboth := congrArg Option.isSome (h field.1)
      rw [Option.isSome_map, Option.isSome_map] at hboth
      exact get?_isSome_iff.mp (hboth.symm.trans hsome)
    · have hname := h member.1
      rw [lookup_of_mem hnodup hmember, Option.map_some, Option.map_eq_some_iff] at hname
      obtain ⟨v, hv, hnormal⟩ := hname
      exact ⟨v, hv, same_iff.mpr hnormal⟩
  · rintro ⟨hnames, hvalues⟩ name
    by_cases hmem : name ∈ d.map Prod.fst
    · obtain ⟨member, hmember, rfl⟩ := List.mem_map.mp hmem
      obtain ⟨v, hv, hsame⟩ := hvalues member hmember
      rw [lookup_of_mem hnodup hmember, show fields.lookup member.1 = some v from hv,
        Option.map_some, Option.map_some, same_iff.mp hsame]
    · have hnone : fields.lookup name = none := by
        rw [List.lookup_eq_none_iff]
        intro field hfield
        refine bne_iff_ne.mpr ?_
        rintro rfl
        exact hmem (hnames field hfield)
      have hnone' : d.lookup name = none := by
        rw [List.lookup_eq_none_iff]
        intro member hmember
        refine bne_iff_ne.mpr ?_
        rintro rfl
        exact hmem (List.mem_map_of_mem hmember)
      rw [hnone, hnone']

end Fields

end Val
end SharedInfra.Python
