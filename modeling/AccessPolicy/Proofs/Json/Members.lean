/-
Members of documents.

Documents are brought into canonical form, read back from their text and read by
the store only up to a NUL.  Each of these changes the members of an object one
by one, so a path leads to the changed value of the member it led to before, as
long as no object gives a member twice.
-/
import AccessPolicy.Database.Entities
import AccessPolicy.Proofs.Sql.Standing
import Mathlib.Data.List.TakeWhile

namespace AccessPolicy

theorem Sql.Value.untilNul_of_not_mem {s : String} (h : '\x00' ∉ s.toList) :
    Sql.Value.untilNul s = s := by
  have hall : s.toList.takeWhile (· != '\x00') = s.toList := by
    rw [List.takeWhile_eq_self_iff]
    intro c hc
    rw [bne_iff_ne]
    rintro rfl
    exact h hc
  rw [Sql.Value.untilNul, hall, String.ofList_toList]

namespace Json

/-! ## Distinct keys -/

/-- No object on any path gives a member twice. -/
def DistinctKeys (v : Json) : Prop :=
  ∀ path members, FieldPath.descend path v = some (.object members) →
    (members.map (·.1)).Nodup

theorem DistinctKeys.members {members : List (String × Json)}
    (h : DistinctKeys (.object members)) : (members.map (·.1)).Nodup :=
  h [] members rfl

theorem DistinctKeys.get? {v w : Json} {key : String} (h : v.DistinctKeys)
    (hw : v.get? key = some w) : w.DistinctKeys := by
  intro path members hpath
  refine h (key :: path) members ?_
  rw [FieldPath.descend, hw]
  exact hpath

/-- A change of documents that changes each member goes along with paths. -/
theorem descend_of_get? {change : Json → Json} {P : Json → Prop}
    (hget : ∀ v key, P v → (change v).get? key = (v.get? key).map change)
    (hmember : ∀ v w key, P v → v.get? key = some w → P w) (path : List String) :
    ∀ {v : Json}, P v →
      FieldPath.descend path (change v) = (FieldPath.descend path v).map change := by
  induction path with
  | nil => intro v _; rfl
  | cons key rest ih =>
    intro v hv
    rw [FieldPath.descend, FieldPath.descend, hget v key hv]
    cases hw : v.get? key with
    | none => rfl
    | some w => exact ih (hmember v w key hv hw)

/-! ## Canonical form -/

theorem get?_cons (key : String) (m : String × Json) (rest : List (String × Json)) :
    (Json.object (m :: rest)).get? key =
      if m.1 = key then some m.2 else (Json.object rest).get? key := by
  by_cases h : m.1 = key
  · simp [get?, h]
  · simp [get?, h]

theorem get?_insertMember (key k : String) (v : Json) (members : List (String × Json)) :
    (Json.object (insertMember k v members)).get? key =
      if k = key then some v else (Json.object members).get? key := by
  induction members with
  | nil => rw [insertMember, get?_cons]
  | cons m rest ih =>
    obtain ⟨l, w⟩ := m
    rw [insertMember]
    split
    · rw [get?_cons]
    · split
      · rename_i hkl
        rw [get?_cons, get?_cons, hkl]
        by_cases h : l = key
        · simp [h]
        · simp [h]
      · rename_i hkl
        rw [get?_cons, ih, get?_cons]
        by_cases h : l = key
        · have hne : k ≠ key := fun e => hkl (e.trans h.symm)
          simp [h, hne]
        · simp [h]

theorem get?_of_not_mem {key : String} {members : List (String × Json)}
    (h : key ∉ members.map (·.1)) : (Json.object members).get? key = none := by
  rw [get?, Option.map_eq_none_iff, List.find?_eq_none]
  intro m hm hkey
  exact h (List.mem_map.mpr ⟨m, hm, by simpa using hkey⟩)

/-- Of members that were put in one after the other the last one counts, and
distinct ones all count. -/
theorem get?_foldl_insertMember (key : String) {members : List (String × Json)}
    (h : (members.map (·.1)).Nodup) :
    ∀ acc, (Json.object (members.foldl (fun acc m => insertMember m.1 m.2 acc) acc)).get? key =
      ((Json.object members).get? key).or ((Json.object acc).get? key) := by
  induction members with
  | nil => intro acc; rfl
  | cons m rest ih =>
    intro acc
    rw [List.map_cons, List.nodup_cons] at h
    rw [List.foldl_cons, ih h.2, get?_insertMember, get?_cons]
    by_cases hm : m.1 = key
    · have hnone : (Json.object rest).get? key = none := get?_of_not_mem (hm ▸ h.1)
      simp [hm, hnone]
    · simp [hm]

theorem canonicalMembers_eq_map (members : List (String × Json)) :
    canonicalMembers members = members.map fun m => (m.1, canonical m.2) := by
  induction members with
  | nil => rfl
  | cons m rest ih => rw [canonicalMembers, ih, List.map_cons]

theorem canonicalItems_eq_map (items : List Json) : canonicalItems items = items.map canonical := by
  induction items with
  | nil => rfl
  | cons v rest ih => rw [canonicalItems, ih, List.map_cons]

theorem get?_map (change : Json → Json) (key : String) (members : List (String × Json)) :
    (Json.object (members.map fun m => (m.1, change m.2))).get? key =
      ((Json.object members).get? key).map change := by
  induction members with
  | nil => rfl
  | cons m rest ih =>
    rw [List.map_cons, get?_cons, get?_cons, ih]
    by_cases h : m.1 = key
    · simp [h]
    · simp [h]

theorem get?_canonical {members : List (String × Json)} (h : (members.map (·.1)).Nodup)
    (key : String) :
    (Json.object members).canonical.get? key = ((Json.object members).get? key).map canonical := by
  have hkeys : ((members.map fun m => (m.1, canonical m.2)).map (·.1)).Nodup := by
    rw [List.map_map]
    exact h
  rw [canonical, canonicalMembers_eq_map, get?_foldl_insertMember key hkeys, get?_map]
  cases (Json.object members).get? key <;> rfl

theorem mem_insertMember {key : String} {v : Json} {members : List (String × Json)}
    {m : String × Json} (h : m ∈ insertMember key v members) : m = (key, v) ∨ m ∈ members := by
  induction members with
  | nil => exact .inl (List.mem_singleton.mp h)
  | cons first rest ih =>
    obtain ⟨k, w⟩ := first
    rw [insertMember] at h
    split at h
    · exact List.mem_cons.mp h
    · split at h
      · exact (List.mem_cons.mp h).imp_right (List.mem_cons_of_mem _)
      · rcases List.mem_cons.mp h with rfl | h
        · exact .inr List.mem_cons_self
        · exact (ih h).imp_right (List.mem_cons_of_mem _)

/-- The keys of the members go up. -/
def Ascending (members : List (String × Json)) : Prop :=
  members.Pairwise fun m n => m.1 < n.1

theorem Ascending.nodup {members : List (String × Json)} (h : Ascending members) :
    (members.map (·.1)).Nodup := by
  rw [List.Nodup, List.pairwise_map]
  refine h.imp ?_
  intro m n hlt heq
  rw [heq] at hlt
  exact String.lt_irrefl _ hlt

theorem ascending_insertMember (key : String) (v : Json) {members : List (String × Json)}
    (h : Ascending members) : Ascending (insertMember key v members) := by
  induction members with
  | nil => exact List.pairwise_singleton _ _
  | cons first rest ih =>
    obtain ⟨k, w⟩ := first
    obtain ⟨hfirst, hrest⟩ := List.pairwise_cons.mp h
    rw [insertMember]
    split
    · rename_i hlt
      refine List.pairwise_cons.mpr ⟨fun m hm => ?_, h⟩
      rcases List.mem_cons.mp hm with rfl | hm
      · exact hlt
      · exact String.lt_trans hlt (hfirst m hm)
    · split
      · rename_i heq
        exact List.pairwise_cons.mpr ⟨fun m hm => heq ▸ hfirst m hm, hrest⟩
      · rename_i hnlt hne
        refine List.pairwise_cons.mpr ⟨fun m hm => ?_, ih hrest⟩
        rcases mem_insertMember hm with rfl | hm
        · rcases Decidable.em (k < key) with hlt | hle
          · exact hlt
          · exact absurd (String.le_antisymm hle hnlt) hne
        · exact hfirst m hm

theorem of_foldl_insertMember (members : List (String × Json)) :
    ∀ {acc}, Ascending acc →
      Ascending (members.foldl (fun acc m => insertMember m.1 m.2 acc) acc) ∧
        ∀ m ∈ members.foldl (fun acc m => insertMember m.1 m.2 acc) acc, m ∈ members ∨ m ∈ acc := by
  induction members with
  | nil => intro acc h; exact ⟨h, fun m hm => .inr hm⟩
  | cons first rest ih =>
    intro acc h
    obtain ⟨hascending, hmem⟩ := ih (ascending_insertMember first.1 first.2 h)
    refine ⟨hascending, fun m hm => ?_⟩
    rcases hmem m hm with hm | hm
    · exact .inl (List.mem_cons_of_mem _ hm)
    · rcases mem_insertMember hm with rfl | hm
      · exact .inl List.mem_cons_self
      · exact .inr hm

theorem of_canonical_eq_object {v : Json} {members : List (String × Json)}
    (h : v.canonical = .object members) :
    Ascending members ∧ ∀ m ∈ members, ∃ w, m.2 = canonical w := by
  cases v with
  | object inner =>
    rw [canonical] at h
    cases h
    obtain ⟨hascending, hmem⟩ := of_foldl_insertMember (canonicalMembers inner) .nil
    refine ⟨hascending, fun m hm => ?_⟩
    rcases hmem m hm with hm | hm
    · rw [canonicalMembers_eq_map] at hm
      obtain ⟨n, _, rfl⟩ := List.mem_map.mp hm
      exact ⟨n.2, rfl⟩
    · cases hm
  | _ => cases h

theorem distinctKeys_canonical (v : Json) : v.canonical.DistinctKeys := by
  intro path
  induction path generalizing v with
  | nil =>
    intro members h
    rw [FieldPath.descend, Option.some_inj] at h
    exact (of_canonical_eq_object h).1.nodup
  | cons key rest ih =>
    intro members h
    rw [FieldPath.descend] at h
    obtain ⟨u, hu, h⟩ := Option.bind_eq_some_iff.mp h
    cases hv : v.canonical with
    | object inner =>
      rw [hv, get?] at hu
      obtain ⟨m, hm, rfl⟩ := Option.map_eq_some_iff.mp hu
      obtain ⟨w, hw⟩ := (of_canonical_eq_object hv).2 m (List.mem_of_find?_eq_some hm)
      rw [hw] at h
      exact ih w members h
    | _ => rw [hv] at hu; cases hu

/-- A key above all others goes to the end. -/
theorem insertMember_of_forall_lt {key : String} (v : Json) {members : List (String × Json)}
    (h : ∀ m ∈ members, m.1 < key) : insertMember key v members = members ++ [(key, v)] := by
  induction members with
  | nil => rfl
  | cons first rest ih =>
    obtain ⟨k, w⟩ := first
    obtain ⟨hfirst, hrest⟩ := List.forall_mem_cons.mp h
    have hnot : ¬ key < k := fun hlt => String.lt_irrefl _ (String.lt_trans hlt hfirst)
    have hne : ¬ key = k := by
      rintro rfl
      exact String.lt_irrefl _ hfirst
    rw [insertMember, if_neg hnot, if_neg hne, ih hrest, List.cons_append]

/-- Members whose keys go up are put in one after the other. -/
theorem foldl_insertMember_of_ascending (members : List (String × Json)) :
    ∀ {acc}, Ascending (acc ++ members) →
      members.foldl (fun acc m => insertMember m.1 m.2 acc) acc = acc ++ members := by
  induction members with
  | nil => intro acc _; rw [List.foldl_nil, List.append_nil]
  | cons first rest ih =>
    intro acc h
    have hlt : ∀ m ∈ acc, m.1 < first.1 := fun m hm =>
      (List.pairwise_append.mp h).2.2 m hm first List.mem_cons_self
    have happend : acc ++ first :: rest = (acc ++ [(first.1, first.2)]) ++ rest := by
      rw [List.append_assoc]
      rfl
    rw [List.foldl_cons, insertMember_of_forall_lt _ hlt, happend]
    exact ih (happend ▸ h)

mutual

/-- Canonical form is reached at once. -/
theorem canonical_canonical (v : Json) : v.canonical.canonical = v.canonical := by
  cases v with
  | array items => rw [canonical, canonical, canonicalItems_canonicalItems items]
  | object members =>
    obtain ⟨hascending, hmem⟩ := of_foldl_insertMember (canonicalMembers members) .nil
    rw [canonical]
    generalize (canonicalMembers members).foldl (fun acc m => insertMember m.1 m.2 acc) [] =
      inner at hascending hmem
    have hvalues : canonicalMembers inner = inner := by
      rw [canonicalMembers_eq_map]
      refine (List.map_congr_left fun m hm => ?_).trans (List.map_id inner)
      rcases hmem m hm with hm | hm
      · rw [canonical_of_mem_canonicalMembers members m hm]
        rfl
      · cases hm
    rw [canonical, hvalues, foldl_insertMember_of_ascending inner
      (show Ascending ([] ++ inner) from hascending), List.nil_append]
  | _ => rfl

theorem canonicalItems_canonicalItems (items : List Json) :
    canonicalItems (canonicalItems items) = canonicalItems items := by
  cases items with
  | nil => rfl
  | cons v rest =>
    rw [canonicalItems, canonicalItems, canonical_canonical v, canonicalItems_canonicalItems rest]

theorem canonical_of_mem_canonicalMembers (members : List (String × Json)) :
    ∀ m ∈ canonicalMembers members, m.2.canonical = m.2 := by
  match members with
  | [] => exact List.forall_mem_nil _
  | (key, v) :: rest =>
    rw [canonicalMembers]
    exact List.forall_mem_cons.mpr
      ⟨canonical_canonical v, canonical_of_mem_canonicalMembers rest⟩

end

/-! ## Reading back -/

theorem rereadMembers_eq_map (members : List (String × Json)) :
    rereadMembers members = members.map fun m => (m.1, reread m.2) := by
  induction members with
  | nil => rfl
  | cons m rest ih => rw [rereadMembers, ih, List.map_cons]

theorem rereadItems_eq_map (items : List Json) : rereadItems items = items.map reread := by
  induction items with
  | nil => rfl
  | cons v rest ih => rw [rereadItems, ih, List.map_cons]

/-- A document as it comes from the store: read back from its text and in
canonical form. -/
theorem descend_loaded (path : List String) {v : Json} (h : v.DistinctKeys) :
    FieldPath.descend path v.reread.canonical =
      (FieldPath.descend path v).map fun w => w.reread.canonical := by
  have hget : ∀ (w : Json) key, w.DistinctKeys →
      w.reread.canonical.get? key = (w.get? key).map fun u => u.reread.canonical := by
    intro w key hw
    cases w with
    | object members =>
      have hkeys : ((members.map fun m => (m.1, reread m.2)).map (·.1)).Nodup := by
        rw [List.map_map]
        exact hw.members
      rw [reread, rereadMembers_eq_map, get?_canonical hkeys, get?_map, Option.map_map]
      rfl
    | _ => rfl
  exact descend_of_get? hget (fun v w key hv hw => hv.get? hw) path h

theorem loaded_of_isPlain {v : Json} (h : v.isPlain = true) : v.reread.canonical = v := by
  cases v with
  | number n =>
    cases n with
    | integer n => rfl
    | double x => cases h
  | array items => cases h
  | object members => cases h
  | _ => rfl

/-! ## Texts up to a NUL -/

mutual

/-- The document with each text in it up to its first NUL. -/
def untilNul : Json → Json
  | .string s => .string (Sql.Value.untilNul s)
  | .array items => .array (untilNulItems items)
  | .object members => .object (untilNulMembers members)
  | v => v

def untilNulItems : List Json → List Json
  | [] => []
  | v :: rest => untilNul v :: untilNulItems rest

def untilNulMembers : List (String × Json) → List (String × Json)
  | [] => []
  | (k, v) :: rest => (k, untilNul v) :: untilNulMembers rest

end

theorem untilNulMembers_eq_map (members : List (String × Json)) :
    untilNulMembers members = members.map fun m => (m.1, untilNul m.2) := by
  induction members with
  | nil => rfl
  | cons m rest ih => rw [untilNulMembers, ih, List.map_cons]

theorem descend_untilNul (path : List String) (v : Json) :
    FieldPath.descend path v.untilNul = (FieldPath.descend path v).map untilNul := by
  refine descend_of_get? (P := fun _ => True) ?_ (fun _ _ _ _ _ => trivial) path trivial
  intro v key _
  cases v with
  | object members => rw [untilNul, untilNulMembers_eq_map, get?_map]
  | _ => rfl

theorem DistinctKeys.untilNul {v : Json} (h : v.DistinctKeys) : v.untilNul.DistinctKeys := by
  intro path members hpath
  rw [descend_untilNul] at hpath
  obtain ⟨w, hw, hmembers⟩ := Option.map_eq_some_iff.mp hpath
  cases w with
  | object inner =>
    rw [Json.untilNul, untilNulMembers_eq_map] at hmembers
    cases hmembers
    rw [List.map_map]
    exact h path inner hw
  | _ => cases hmembers

theorem isPlain_untilNul {v : Json} (h : v.isPlain = true) : v.untilNul.isPlain = true := by
  cases v with
  | array items => cases h
  | object members => cases h
  | string s => rfl
  | _ => exact h

end Json
end AccessPolicy
