import Mathlib.Data.List.Induction
import Mathlib.Data.String.Basic
import Mathlib.Tactic.Common

/-!
# JSON values

Values over any type of numbers. An object is the list of its members as they were written;
two values are the same if they agree once the members of every object are collected into a
map, in which the last member of a name counts. `canonical` keeps that map as the list of its
members in the order of their names.
-/

inductive Json (ν : Type) where
  | null
  | bool (b : Bool)
  | number (x : ν)
  | string (s : String)
  | array (items : List (Json ν))
  | object (members : List (String × Json ν))

namespace Json

section Collect

variable {κ β γ : Type} [LinearOrder κ]

/-- Sets the value of a key in a list that is sorted by its keys. -/
def insertMember (key : κ) (value : β) : List (κ × β) → List (κ × β)
  | [] => [(key, value)]
  | m :: members =>
    if key < m.1 then (key, value) :: m :: members
    else if key = m.1 then (key, value) :: members
    else m :: insertMember key value members

/-- The map of the members of a list, sorted by its keys. -/
def collect (members : List (κ × β)) : List (κ × β) :=
  members.foldl (fun sorted m => insertMember m.1 m.2 sorted) []

/-- Sorted by its keys, each of which occurs once. -/
def SortedKeys (members : List (κ × β)) : Prop := members.Pairwise fun m m' => m.1 < m'.1

theorem collect_append_singleton (members : List (κ × β)) (m : κ × β) :
    collect (members ++ [m]) = insertMember m.1 m.2 (collect members) := by
  rw [collect, List.foldl_append]
  rfl

theorem mem_insertMember {key : κ} {value : β} {members : List (κ × β)} {m : κ × β}
    (h : m ∈ insertMember key value members) : m = (key, value) ∨ m ∈ members := by
  induction members with
  | nil => exact Or.inl (List.mem_singleton.mp h)
  | cons first members ih =>
    rw [insertMember] at h
    split_ifs at h
    · exact List.mem_cons.mp h
    · obtain rfl | h := List.mem_cons.mp h
      · exact Or.inl rfl
      · exact Or.inr (List.mem_cons_of_mem first h)
    · obtain rfl | h := List.mem_cons.mp h
      · exact Or.inr List.mem_cons_self
      · obtain h | h := ih h
        · exact Or.inl h
        · exact Or.inr (List.mem_cons_of_mem first h)

theorem sortedKeys_insertMember {members : List (κ × β)} (h : SortedKeys members) (key : κ)
    (value : β) : SortedKeys (insertMember key value members) := by
  induction members with
  | nil => exact List.pairwise_singleton _ _
  | cons first members ih =>
    obtain ⟨hfirst, hmembers⟩ := List.pairwise_cons.mp h
    rw [insertMember]
    split_ifs with hlt heq
    · apply List.pairwise_cons.mpr ⟨?_, h⟩
      intro m hm
      obtain rfl | hm := List.mem_cons.mp hm
      · exact hlt
      · exact hlt.trans (hfirst m hm)
    · apply List.pairwise_cons.mpr ⟨?_, hmembers⟩
      intro m hm
      rw [heq]
      exact hfirst m hm
    · apply List.pairwise_cons.mpr ⟨?_, ih hmembers⟩
      intro m hm
      obtain rfl | hm := mem_insertMember hm
      · exact lt_of_le_of_ne (not_lt.mp hlt) (Ne.symm heq)
      · exact hfirst m hm

theorem sortedKeys_collect (members : List (κ × β)) : SortedKeys (collect members) := by
  induction members using List.reverseRecOn with
  | nil => exact List.Pairwise.nil
  | append_singleton members m ih =>
    rw [collect_append_singleton]
    exact sortedKeys_insertMember ih m.1 m.2

theorem insertMember_last {members : List (κ × β)} {key : κ} (value : β)
    (h : ∀ m ∈ members, m.1 < key) :
    insertMember key value members = members ++ [(key, value)] := by
  induction members with
  | nil => rfl
  | cons first members ih =>
    obtain ⟨hfirst, hmembers⟩ := List.forall_mem_cons.mp h
    rw [insertMember, if_neg hfirst.asymm, if_neg hfirst.ne', ih hmembers]
    rfl

theorem collect_of_sortedKeys {members : List (κ × β)} (h : SortedKeys members) :
    collect members = members := by
  induction members using List.reverseRecOn with
  | nil => rfl
  | append_singleton members m ih =>
    obtain ⟨hmembers, -, hlast⟩ := List.pairwise_append.mp h
    rw [collect_append_singleton, ih hmembers]
    exact insertMember_last m.2 fun m' hm' => hlast m' hm' m (List.mem_singleton.mpr rfl)

theorem map_insertMember (g : β → γ) (key : κ) (value : β) (members : List (κ × β)) :
    (insertMember key value members).map (Prod.map id g) =
      insertMember key (g value) (members.map (Prod.map id g)) := by
  induction members with
  | nil => rfl
  | cons first members ih =>
    simp only [insertMember, List.map_cons, Prod.map_fst, id_eq]
    split_ifs
    · rfl
    · rfl
    · rw [List.map_cons, ih]

theorem map_collect (g : β → γ) (members : List (κ × β)) :
    (collect members).map (Prod.map id g) = collect (members.map (Prod.map id g)) := by
  induction members using List.reverseRecOn with
  | nil => rfl
  | append_singleton members m ih =>
    rw [collect_append_singleton, map_insertMember, ih, List.map_append, List.map_singleton,
      collect_append_singleton]
    rfl

theorem mem_collect {members : List (κ × β)} {m : κ × β} (h : m ∈ collect members) :
    m ∈ members := by
  induction members using List.reverseRecOn with
  | nil => exact h
  | append_singleton members m' ih =>
    rw [collect_append_singleton] at h
    obtain rfl | h := mem_insertMember h
    · exact List.mem_append_right _ (List.mem_singleton.mpr rfl)
    · exact List.mem_append_left _ (ih h)

end Collect

section Values

variable {ν μ ξ : Type}

mutual

/-- Replaces the numbers and arranges the members of every object. -/
def rebuild (g : ν → μ) (arrange : List (String × Json μ) → List (String × Json μ)) :
    Json ν → Json μ
  | null => null
  | bool b => bool b
  | number x => number (g x)
  | string s => string s
  | array items => array (rebuildItems g arrange items)
  | object members => object (arrange (rebuildMembers g arrange members))

def rebuildItems (g : ν → μ) (arrange : List (String × Json μ) → List (String × Json μ)) :
    List (Json ν) → List (Json μ)
  | [] => []
  | v :: items => rebuild g arrange v :: rebuildItems g arrange items

def rebuildMembers (g : ν → μ) (arrange : List (String × Json μ) → List (String × Json μ)) :
    List (String × Json ν) → List (String × Json μ)
  | [] => []
  | (name, v) :: members => (name, rebuild g arrange v) :: rebuildMembers g arrange members

end

mutual

def numbers : Json ν → List ν
  | null | bool _ | string _ => []
  | number x => [x]
  | array items => numbersOfItems items
  | object members => numbersOfMembers members

def numbersOfItems : List (Json ν) → List ν
  | [] => []
  | v :: items => numbers v ++ numbersOfItems items

def numbersOfMembers : List (String × Json ν) → List ν
  | [] => []
  | (_, v) :: members => numbers v ++ numbersOfMembers members

end

def map (g : ν → μ) : Json ν → Json μ := rebuild g id

/-- The value with the members of every object collected. -/
def canonical : Json ν → Json ν := rebuild id collect

variable {g : ν → μ} {arrange : List (String × Json μ) → List (String × Json μ)}

theorem rebuildItems_eq (items : List (Json ν)) :
    rebuildItems g arrange items = items.map (rebuild g arrange) := by
  induction items with
  | nil => rfl
  | cons v items ih => rw [rebuildItems, ih, List.map_cons]

theorem rebuildMembers_eq (members : List (String × Json ν)) :
    rebuildMembers g arrange members = members.map (Prod.map id (rebuild g arrange)) := by
  induction members with
  | nil => rfl
  | cons m members ih =>
    rw [rebuildMembers, ih, List.map_cons]
    rfl

theorem mem_numbersOfItems {x : ν} {items : List (Json ν)} :
    x ∈ numbersOfItems items ↔ ∃ v ∈ items, x ∈ numbers v := by
  induction items with
  | nil => simp [numbersOfItems]
  | cons v items ih => simp [numbersOfItems, ih]

theorem mem_numbersOfMembers {x : ν} {members : List (String × Json ν)} :
    x ∈ numbersOfMembers members ↔ ∃ m ∈ members, x ∈ numbers m.2 := by
  induction members with
  | nil => simp [numbersOfMembers]
  | cons m members ih => simp [numbersOfMembers, ih]

@[simp] theorem rebuild_array (items : List (Json ν)) :
    rebuild g arrange (array items) = array (items.map (rebuild g arrange)) := by
  rw [rebuild, rebuildItems_eq]

@[simp] theorem rebuild_object (members : List (String × Json ν)) :
    rebuild g arrange (object members) =
      object (arrange (members.map (Prod.map id (rebuild g arrange)))) := by
  rw [rebuild, rebuildMembers_eq]

mutual

/-- Induction over a value: what holds of all items or of all members holds of the whole. -/
theorem induction {P : Json ν → Prop} (null : P null) (bool : ∀ b, P (bool b))
    (number : ∀ x, P (number x)) (string : ∀ s, P (string s))
    (array : ∀ items, (∀ v ∈ items, P v) → P (array items))
    (object : ∀ members, (∀ m ∈ members, P m.2) → P (object members)) : ∀ v, P v
  | .null => null
  | .bool b => bool b
  | .number x => number x
  | .string s => string s
  | .array items =>
    array items (induction_items null bool number string array object items)
  | .object members =>
    object members (induction_members null bool number string array object members)

theorem induction_items {P : Json ν → Prop} (null : P null) (bool : ∀ b, P (bool b))
    (number : ∀ x, P (number x)) (string : ∀ s, P (string s))
    (array : ∀ items, (∀ v ∈ items, P v) → P (array items))
    (object : ∀ members, (∀ m ∈ members, P m.2) → P (object members)) :
    ∀ items : List (Json ν), ∀ v ∈ items, P v
  | [] => List.forall_mem_nil _
  | v :: items =>
    List.forall_mem_cons.mpr ⟨induction null bool number string array object v,
      induction_items null bool number string array object items⟩

theorem induction_members {P : Json ν → Prop} (null : P null) (bool : ∀ b, P (bool b))
    (number : ∀ x, P (number x)) (string : ∀ s, P (string s))
    (array : ∀ items, (∀ v ∈ items, P v) → P (array items))
    (object : ∀ members, (∀ m ∈ members, P m.2) → P (object members)) :
    ∀ members : List (String × Json ν), ∀ m ∈ members, P m.2
  | [] => List.forall_mem_nil _
  | (_, v) :: members =>
    List.forall_mem_cons.mpr ⟨induction null bool number string array object v,
      induction_members null bool number string array object members⟩

end

theorem map_map (g : ν → μ) (h : μ → ξ) (v : Json ν) : (v.map g).map h = v.map (h ∘ g) := by
  induction v using Json.induction with
  | null | bool | number | string => rfl
  | array items ih =>
    simp only [map, rebuild_array, List.map_map, array.injEq] at ih ⊢
    exact List.map_congr_left ih
  | object members ih =>
    simp only [map, rebuild_object, id_eq, List.map_map, object.injEq] at ih ⊢
    exact List.map_congr_left fun m hm => Prod.ext rfl (ih m hm)

theorem canonical_map (g : ν → μ) (v : Json ν) : (v.map g).canonical = v.canonical.map g := by
  induction v using Json.induction with
  | null | bool | number | string => rfl
  | array items ih =>
    simp only [map, canonical, rebuild_array, List.map_map, array.injEq] at ih ⊢
    exact List.map_congr_left ih
  | object members ih =>
    simp only [map, canonical, rebuild_object, id_eq, List.map_map, object.injEq,
      map_collect] at ih ⊢
    apply congrArg collect
    exact List.map_congr_left fun m hm => Prod.ext rfl (ih m hm)

theorem canonical_canonical (v : Json ν) : v.canonical.canonical = v.canonical := by
  induction v using Json.induction with
  | null | bool | number | string => rfl
  | array items ih =>
    simp only [canonical, rebuild_array, List.map_map, array.injEq] at ih ⊢
    exact List.map_congr_left ih
  | object members ih =>
    simp only [canonical, rebuild_object, object.injEq] at ih ⊢
    rw [map_collect, List.map_map, collect_of_sortedKeys (sortedKeys_collect _)]
    apply congrArg collect
    exact List.map_congr_left fun m hm => Prod.ext rfl (ih m hm)

theorem list_map_eq_self_iff {β : Type} {f : β → β} {l : List β} :
    l.map f = l ↔ ∀ a ∈ l, f a = a := by
  have hmap : l.map f = l.map id ↔ ∀ a ∈ l, f a = id a := List.map_inj_left
  rwa [List.map_id] at hmap

/-- A change of the numbers changes the value unless it keeps each of them. -/
theorem map_eq_self_iff {g : ν → ν} {v : Json ν} : v.map g = v ↔ ∀ x ∈ v.numbers, g x = x := by
  induction v using Json.induction with
  | null | bool | string => simp [map, rebuild, numbers]
  | number x => simp [map, rebuild, numbers]
  | array items ih =>
    simp only [map, rebuild_array, array.injEq, numbers, mem_numbersOfItems] at ih ⊢
    rw [list_map_eq_self_iff]
    constructor
    · rintro h x ⟨v, hv, hx⟩
      exact (ih v hv).mp (h v hv) x hx
    · intro h v hv
      exact (ih v hv).mpr fun x hx => h x ⟨v, hv, hx⟩
  | object members ih =>
    simp only [map, rebuild_object, id_eq, object.injEq, numbers, mem_numbersOfMembers] at ih ⊢
    rw [list_map_eq_self_iff]
    constructor
    · rintro h x ⟨m, hm, hx⟩
      exact (ih m hm).mp (congrArg Prod.snd (h m hm)) x hx
    · intro h m hm
      exact Prod.ext rfl ((ih m hm).mpr fun x hx => h x ⟨m, hm, hx⟩)

theorem mem_numbers_map {g : ν → μ} {v : Json ν} {y : μ} (h : y ∈ (v.map g).numbers) :
    ∃ x ∈ v.numbers, g x = y := by
  induction v using Json.induction with
  | null | bool | string => cases h
  | number x => exact ⟨x, List.mem_singleton_self x, (List.mem_singleton.mp h).symm⟩
  | array items ih =>
    simp only [map, rebuild_array, numbers, mem_numbersOfItems, List.mem_map] at h ih ⊢
    obtain ⟨w, ⟨v, hv, rfl⟩, hy⟩ := h
    obtain ⟨x, hx, hgx⟩ := ih v hv hy
    exact ⟨x, ⟨v, hv, hx⟩, hgx⟩
  | object members ih =>
    simp only [map, rebuild_object, id_eq, numbers, mem_numbersOfMembers, List.mem_map] at h ih ⊢
    obtain ⟨w, ⟨m, hm, rfl⟩, hy⟩ := h
    obtain ⟨x, hx, hgx⟩ := ih m hm hy
    exact ⟨x, ⟨m, hm, hx⟩, hgx⟩

theorem mem_numbers_canonical {v : Json ν} {x : ν} (h : x ∈ v.canonical.numbers) :
    x ∈ v.numbers := by
  induction v using Json.induction with
  | null | bool | number | string => exact h
  | array items ih =>
    simp only [canonical, rebuild_array, numbers, mem_numbersOfItems, List.mem_map] at h ih ⊢
    obtain ⟨w, ⟨v, hv, rfl⟩, hx⟩ := h
    exact ⟨v, hv, ih v hv hx⟩
  | object members ih =>
    simp only [canonical, rebuild_object, numbers, mem_numbersOfMembers] at h ih ⊢
    obtain ⟨collected, hcollected, hx⟩ := h
    obtain ⟨m, hm, rfl⟩ := List.mem_map.mp (mem_collect hcollected)
    exact ⟨m, hm, ih m hm hx⟩

end Values

end Json
