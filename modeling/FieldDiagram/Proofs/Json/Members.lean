import FieldDiagram.Json.Value
import Mathlib.Data.List.Induction
import Mathlib.Data.List.Nodup
import Mathlib.Data.String.Basic
/-!
# Members by name

Sorting the members of an object keeps the last one of each name: by name they are looked up as in the
members read backwards (`lookup_sortMembers`), and no name is left twice (`nodup_sortMembers`). Where
names are distinct from the start, sorting only moves members about.
-/

namespace FieldDiagram.Json

variable {ν : Type}

/-- The members of an object; other values have none. -/
def Value.members : Value → List (String × Value)
  | .object members => members
  | _ => []

/-- Members with distinct names. -/
def DistinctNames (ms : List (String × ν)) : Prop := (ms.map Prod.fst).Nodup

theorem DistinctNames.filter {ms : List (String × ν)} (h : DistinctNames ms)
    (p : String × ν → Bool) : DistinctNames (ms.filter p) :=
  h.sublist (List.filter_sublist.map Prod.fst)

theorem DistinctNames.reverse {ms : List (String × ν)} (h : DistinctNames ms) :
    DistinctNames ms.reverse := by
  rw [DistinctNames, List.map_reverse]
  exact List.nodup_reverse.2 h

theorem DistinctNames.perm {ms ns : List (String × ν)} (h : DistinctNames ns) (hperm : ms.Perm ns) :
    DistinctNames ms :=
  (hperm.map Prod.fst).nodup_iff.2 h

theorem distinctNames_nil : DistinctNames ([] : List (String × ν)) := List.nodup_nil

/-- Without the members of its name, a member is missing from among distinct ones and no other is. -/
theorem filter_ne_middle {k : String} {v : ν} {before after : List (String × ν)}
    (h : DistinctNames (before ++ (k, v) :: after)) :
    (before ++ (k, v) :: after).filter (·.1 ≠ k) = before ++ after := by
  rw [DistinctNames, List.map_append, List.map_cons, List.nodup_middle, ← List.map_append,
    List.nodup_cons] at h
  have hkept : ∀ m ∈ before ++ after, decide (m.1 ≠ k) = true := by
    intro m hm
    apply decide_eq_true
    rintro rfl
    exact h.1 (List.mem_map.2 ⟨m, hm, rfl⟩)
  rw [List.filter_append, List.filter_cons_of_neg (by simp), ← List.filter_append,
    List.filter_eq_self.2 hkept]

/-! ## Looking up

Members with distinct names are told by what is found under each name, whatever their order. -/

theorem lookup_cons_eq_ite (k j : String) (w : ν) (ms : List (String × ν)) :
    ((j, w) :: ms).lookup k = if k = j then some w else ms.lookup k := by
  rw [List.lookup_cons]
  by_cases h : k = j
  · rw [if_pos h, beq_iff_eq.2 h]
  · rw [if_neg h, beq_eq_false_iff_ne.2 h]

theorem mem_of_lookup {k : String} {v : ν} {ms : List (String × ν)} (h : ms.lookup k = some v) :
    (k, v) ∈ ms := by
  obtain ⟨before, after, rfl, -⟩ := List.lookup_eq_some_iff.1 h
  simp

/-- Before a member among distinct ones none has its name. -/
theorem lookup_eq_none_of_middle {k : String} {v : ν} {before after : List (String × ν)}
    (h : DistinctNames (before ++ (k, v) :: after)) : before.lookup k = none := by
  rw [DistinctNames, List.map_append, List.nodup_append] at h
  refine List.lookup_eq_none_iff.2 fun m hm => ?_
  have hne : m.1 ≠ k := h.2.2 m.1 (List.mem_map_of_mem hm) k (by simp)
  exact bne_iff_ne.2 hne.symm

/-- Among distinct names a lookup finds exactly the members. -/
theorem lookup_eq_some_iff_mem {k : String} {v : ν} {ms : List (String × ν)} (h : DistinctNames ms) :
    ms.lookup k = some v ↔ (k, v) ∈ ms := by
  refine ⟨mem_of_lookup, fun hmem => ?_⟩
  obtain ⟨before, after, rfl⟩ := List.append_of_mem hmem
  have hbefore := List.lookup_eq_none_iff.1 (lookup_eq_none_of_middle h)
  exact List.lookup_eq_some_iff.2 ⟨before, after, rfl, hbefore⟩

/-- Lookups among distinct names tell the members and nothing else. -/
theorem lookup_congr {ms ns : List (String × ν)} (hms : DistinctNames ms) (hns : DistinctNames ns)
    (h : ∀ m, m ∈ ms ↔ m ∈ ns) (k : String) : ms.lookup k = ns.lookup k := by
  refine Option.ext fun v => ?_
  rw [lookup_eq_some_iff_mem hms, lookup_eq_some_iff_mem hns, h]

/-- A member of a new name may be added to distinct ones. -/
theorem DistinctNames.concat {ms : List (String × ν)} (h : DistinctNames ms) {k : String}
    (hnew : ms.lookup k = none) (v : ν) : DistinctNames (ms ++ [(k, v)]) := by
  have hdiffers : ∀ m ∈ ms, m.1 ≠ k := fun m hm =>
    (bne_iff_ne.1 (List.lookup_eq_none_iff.1 hnew m hm)).symm
  rw [DistinctNames, List.map_append, List.map_singleton, List.nodup_append]
  refine ⟨h, List.nodup_singleton k, fun j hj k' hk' => ?_⟩
  obtain ⟨m, hm, rfl⟩ := List.mem_map.1 hj
  rw [List.mem_singleton.1 hk']
  exact hdiffers m hm

/-- Members that are kept are looked up as before. -/
theorem lookup_filter {k : String} {p : String × ν → Bool} (ms : List (String × ν))
    (hkeeps : ∀ v, p (k, v) = true) : (ms.filter p).lookup k = ms.lookup k := by
  induction ms with
  | nil => rfl
  | cons m ms ih =>
    obtain ⟨j, w⟩ := m
    rw [List.filter_cons, lookup_cons_eq_ite]
    split
    · rw [lookup_cons_eq_ite, ih]
    · next hdrops =>
      have hne : k ≠ j := fun heq => hdrops (heq ▸ hkeeps w)
      rw [ih, if_neg hne]

theorem lookup_filter_fst (p : String → Bool) (ms : List (String × ν)) (k : String) :
    (ms.filter (p ·.1)).lookup k = if p k then ms.lookup k else none := by
  by_cases hk : p k = true
  · rw [if_pos hk]
    exact lookup_filter ms fun _ => hk
  · rw [if_neg hk]
    apply List.lookup_eq_none_iff.2
    intro m hm
    have hkept := (List.mem_filter.1 hm).2
    apply bne_iff_ne.2
    rintro rfl
    exact hk hkept

theorem lookup_map_snd {μ : Type} (f : ν → μ) (ms : List (String × ν)) (k : String) :
    (ms.map fun m => (m.1, f m.2)).lookup k = (ms.lookup k).map f := by
  induction ms with
  | nil => rfl
  | cons m ms ih =>
    rw [List.map_cons, lookup_cons_eq_ite, ih, lookup_cons_eq_ite]
    split <;> rfl

/-! ## Sorting

Members are put in one by one, and one that has the name of another takes its place. So sorting is not
stable in the usual sense: it keeps one member of each name, the last. -/

theorem lookup_insertMember (name k : String) (v : ν) (ms : List (String × ν)) :
    (insertMember name v ms).lookup k = if k = name then some v else ms.lookup k := by
  fun_induction insertMember name v ms with
  | case1 => rw [lookup_cons_eq_ite]
  | case2 j w ms hlt => rw [lookup_cons_eq_ite]
  | case3 w ms hlt =>
    rw [lookup_cons_eq_ite, lookup_cons_eq_ite]
    split <;> rfl
  | case4 j w ms hlt hne ih =>
    rw [lookup_cons_eq_ite, lookup_cons_eq_ite, ih]
    by_cases hk : k = name
    · rw [if_pos hk, if_pos hk, if_neg (hk ▸ hne)]
    · rw [if_neg hk, if_neg hk]

theorem mem_insertMember {name : String} {v : ν} {ms : List (String × ν)} {m : String × ν}
    (h : m ∈ insertMember name v ms) : m = (name, v) ∨ m ∈ ms := by
  fun_induction insertMember name v ms with
  | case1 => exact Or.inl (List.mem_singleton.1 h)
  | case2 j w ms hlt => exact List.mem_cons.1 h
  | case3 w ms hlt => exact (List.mem_cons.1 h).imp_right (List.mem_cons_of_mem _)
  | case4 j w ms hlt hne ih =>
    rcases List.mem_cons.1 h with rfl | hrest
    · exact Or.inr List.mem_cons_self
    · exact (ih hrest).imp_right (List.mem_cons_of_mem _)

theorem pairwise_insertMember {name : String} (v : ν) {ms : List (String × ν)}
    (h : ms.Pairwise fun a b => a.1 < b.1) :
    (insertMember name v ms).Pairwise fun a b => a.1 < b.1 := by
  fun_induction insertMember name v ms with
  | case1 => exact List.pairwise_singleton _ _
  | case2 j w ms hlt =>
    refine List.pairwise_cons.2 ⟨fun m hm => ?_, h⟩
    rcases List.mem_cons.1 hm with rfl | hrest
    · exact hlt
    · exact lt_trans hlt (List.rel_of_pairwise_cons h hrest)
  | case3 w ms hlt => exact List.pairwise_cons.2 ⟨fun m hm => List.rel_of_pairwise_cons h hm, h.of_cons⟩
  | case4 j w ms hlt hne ih =>
    refine List.pairwise_cons.2 ⟨fun m hm => ?_, ih h.of_cons⟩
    rcases mem_insertMember hm with rfl | hold
    · exact lt_of_le_of_ne (not_lt.1 hlt) (Ne.symm hne)
    · exact List.rel_of_pairwise_cons h hold

theorem sortMembers_concat (ms : List (String × ν)) (m : String × ν) :
    sortMembers (ms ++ [m]) = insertMember m.1 m.2 (sortMembers ms) := by
  rw [sortMembers, List.foldl_append]
  rfl

/-- Of each name the last member is kept. -/
theorem lookup_sortMembers (ms : List (String × ν)) (k : String) :
    (sortMembers ms).lookup k = ms.reverse.lookup k := by
  induction ms using List.reverseRecOn with
  | nil => rfl
  | append_singleton ms m ih =>
    rw [sortMembers_concat, lookup_insertMember, ih, List.reverse_append, List.reverse_singleton,
      List.singleton_append, lookup_cons_eq_ite]

theorem pairwise_sortMembers (ms : List (String × ν)) :
    (sortMembers ms).Pairwise fun a b => a.1 < b.1 := by
  induction ms using List.reverseRecOn with
  | nil => exact List.Pairwise.nil
  | append_singleton ms m ih =>
    rw [sortMembers_concat]
    exact pairwise_insertMember m.2 ih

theorem distinctNames_of_pairwise {ms : List (String × ν)} (h : ms.Pairwise fun a b => a.1 < b.1) :
    DistinctNames ms :=
  List.pairwise_map.2 (h.imp fun hlt => ne_of_lt hlt)

theorem distinctNames_sortMembers (ms : List (String × ν)) : DistinctNames (sortMembers ms) :=
  distinctNames_of_pairwise (pairwise_sortMembers ms)

/-- Sorted members are told by their lookups, order included. -/
theorem eq_of_lookup_eq {ms ns : List (String × ν)} (hms : ms.Pairwise fun a b => a.1 < b.1)
    (hns : ns.Pairwise fun a b => a.1 < b.1) (h : ∀ k, ms.lookup k = ns.lookup k) : ms = ns := by
  have hdistinct := distinctNames_of_pairwise hms
  have hdistinct' := distinctNames_of_pairwise hns
  have hperm : ms.Perm ns := by
    refine (List.perm_ext_iff_of_nodup hdistinct.of_map hdistinct'.of_map).2 ?_
    rintro ⟨k, v⟩
    rw [← lookup_eq_some_iff_mem hdistinct, ← lookup_eq_some_iff_mem hdistinct', h]
  refine hperm.eq_of_pairwise ?_ hms hns
  intro a b _ _ hlt hgt
  exact absurd hgt (lt_asymm hlt)

theorem mem_of_mem_sortMembers {ms : List (String × ν)} {m : String × ν} (h : m ∈ sortMembers ms) :
    m ∈ ms := by
  induction ms using List.reverseRecOn with
  | nil => exact h
  | append_singleton ms m' ih =>
    rw [sortMembers_concat] at h
    rcases mem_insertMember h with rfl | hold
    · simp
    · exact List.mem_append_left _ (ih hold)

/-- Sorting members with distinct names loses none. -/
theorem mem_sortMembers {ms : List (String × ν)} (h : DistinctNames ms) (m : String × ν) :
    m ∈ sortMembers ms ↔ m ∈ ms := by
  refine ⟨mem_of_mem_sortMembers, fun hmem => ?_⟩
  have hreverse : DistinctNames ms.reverse := by
    rw [DistinctNames, List.map_reverse]
    exact List.nodup_reverse.2 h
  rw [← lookup_eq_some_iff_mem (distinctNames_sortMembers ms), lookup_sortMembers,
    lookup_eq_some_iff_mem hreverse]
  exact List.mem_reverse.2 hmem

theorem canonicalMembers_eq_map (ms : List (String × Value)) :
    canonicalMembers ms = ms.map fun m => (m.1, m.2.canonical) := by
  induction ms with
  | nil => rfl
  | cons m ms ih => rw [canonicalMembers, ih, List.map_cons]

end FieldDiagram.Json
