/-
ProvenoGateway/OrdMap.lean

Finite maps with ordered keys, as a library of its own: an association list
that carries the proof that its keys increase strictly.  It stands for a
`BTreeMap`: iteration goes by key, inserting replaces.
-/
import Mathlib.Order.Lattice
import Mathlib.Data.List.Nodup
import Mathlib.Data.List.Pairwise

/-- A finite map, as a list with strictly increasing keys. -/
structure OrdMap (κ : Type) [LinearOrder κ] (α : Type) where
  entries : List (κ × α)
  sorted : entries.Pairwise fun a b => a.1 < b.1

namespace OrdMap

variable {κ : Type} [LinearOrder κ] {α : Type}

/-- Insertion into an association list, replacing the value of a key that is
there. -/
def insertList (k : κ) (v : α) : List (κ × α) → List (κ × α)
  | [] => [(k, v)]
  | (k', v') :: rest =>
      if k < k' then (k, v) :: (k', v') :: rest
      else if k = k' then (k, v) :: rest
      else (k', v') :: insertList k v rest

def lookupList (k : κ) : List (κ × α) → Option α
  | [] => none
  | (k', v) :: rest => if k = k' then some v else lookupList k rest

theorem insertList_nil (k : κ) (v : α) : insertList k v [] = [(k, v)] := rfl

theorem insertList_cons (k k' : κ) (v v' : α) (rest : List (κ × α)) :
    insertList k v ((k', v') :: rest) =
      if k < k' then (k, v) :: (k', v') :: rest
      else if k = k' then (k, v) :: rest
      else (k', v') :: insertList k v rest := rfl

theorem lookupList_nil (k : κ) : lookupList k ([] : List (κ × α)) = none := rfl

theorem lookupList_cons (k k' : κ) (v : α) (rest : List (κ × α)) :
    lookupList k ((k', v) :: rest) = if k = k' then some v else lookupList k rest := rfl

theorem mem_insertList {k : κ} {v : α} {e : κ × α} {l : List (κ × α)}
    (h : e ∈ insertList k v l) : e = (k, v) ∨ e ∈ l := by
  induction l with
  | nil => exact Or.inl (by simpa [insertList_nil] using h)
  | cons hd tl ih =>
    obtain ⟨k', v'⟩ := hd
    rw [insertList_cons] at h
    split_ifs at h with h₁ h₂
    · simpa using h
    · rcases List.mem_cons.mp h with h | h
      · exact Or.inl h
      · exact Or.inr (List.mem_cons_of_mem _ h)
    · rcases List.mem_cons.mp h with h | h
      · exact Or.inr (by rw [h]; exact List.mem_cons_self)
      · rcases ih h with h | h
        · exact Or.inl h
        · exact Or.inr (List.mem_cons_of_mem _ h)

theorem sorted_insertList (k : κ) (v : α) {l : List (κ × α)}
    (h : l.Pairwise fun a b => a.1 < b.1) :
    (insertList k v l).Pairwise fun a b => a.1 < b.1 := by
  induction l with
  | nil => simp [insertList_nil]
  | cons hd tl ih =>
    obtain ⟨k', v'⟩ := hd
    obtain ⟨hhd, htl⟩ := List.pairwise_cons.mp h
    rw [insertList_cons]
    split_ifs with h₁ h₂
    · refine List.pairwise_cons.mpr ⟨?_, h⟩
      intro e he
      rcases List.mem_cons.mp he with rfl | he
      · exact h₁
      · exact h₁.trans (hhd e he)
    · subst h₂
      exact List.pairwise_cons.mpr ⟨hhd, htl⟩
    · refine List.pairwise_cons.mpr ⟨?_, ih htl⟩
      intro e he
      rcases mem_insertList he with rfl | he
      · exact lt_of_le_of_ne (not_lt.mp h₁) (Ne.symm h₂)
      · exact hhd e he

theorem lookupList_insertList_self (k : κ) (v : α) (l : List (κ × α)) :
    lookupList k (insertList k v l) = some v := by
  induction l with
  | nil => simp [insertList_nil, lookupList_cons]
  | cons hd tl ih =>
    obtain ⟨k₀, v₀⟩ := hd
    rw [insertList_cons]
    split_ifs with h₁ h₂
    · simp [lookupList_cons]
    · simp [lookupList_cons]
    · rw [lookupList_cons, if_neg h₂, ih]

theorem lookupList_insertList_ne {k k' : κ} (h : k' ≠ k) (v : α) (l : List (κ × α)) :
    lookupList k' (insertList k v l) = lookupList k' l := by
  induction l with
  | nil => simp [insertList_nil, lookupList_cons, lookupList_nil, h]
  | cons hd tl ih =>
    obtain ⟨k₀, v₀⟩ := hd
    rw [insertList_cons]
    split_ifs with h₁ h₂
    · rw [lookupList_cons, if_neg h]
    · subst h₂
      rw [lookupList_cons, lookupList_cons, if_neg h, if_neg h]
    · rw [lookupList_cons, lookupList_cons, ih]

/-- Inserting a new key adds one entry. -/
theorem insertList_perm {k : κ} (v : α) {l : List (κ × α)} (h : k ∉ l.map Prod.fst) :
    (insertList k v l).Perm ((k, v) :: l) := by
  induction l with
  | nil => exact List.Perm.refl _
  | cons hd tl ih =>
    obtain ⟨k', v'⟩ := hd
    rw [List.map_cons, List.mem_cons, not_or] at h
    rw [insertList_cons]
    split_ifs with h₁ h₂
    · exact List.Perm.refl _
    · exact absurd h₂ h.1
    · exact ((ih h.2).cons (k', v')).trans (List.Perm.swap _ _ _)

def empty : OrdMap κ α := ⟨[], List.Pairwise.nil⟩

def insert (m : OrdMap κ α) (k : κ) (v : α) : OrdMap κ α :=
  ⟨insertList k v m.entries, sorted_insertList k v m.sorted⟩

def get (m : OrdMap κ α) (k : κ) : Option α := lookupList k m.entries

/-- Insert the entries of a list in order. -/
def ofList (l : List (κ × α)) : OrdMap κ α := l.foldl (fun m e => m.insert e.1 e.2) empty

def keys (m : OrdMap κ α) : List κ := m.entries.map Prod.fst

@[simp] theorem get_empty (k : κ) : (empty : OrdMap κ α).get k = none := rfl

theorem get_insert_self (m : OrdMap κ α) (k : κ) (v : α) : (m.insert k v).get k = some v :=
  lookupList_insertList_self k v m.entries

theorem get_insert_ne (m : OrdMap κ α) {k k' : κ} (h : k' ≠ k) (v : α) :
    (m.insert k v).get k' = m.get k' :=
  lookupList_insertList_ne h v m.entries

/-- A list without repeated keys keeps all its entries. -/
theorem ofList_perm {l : List (κ × α)} (h : (l.map Prod.fst).Nodup) :
    (ofList l).entries.Perm l := by
  -- generalised to any map to start from, whose keys are not among those of `l`
  have gen : ∀ (l : List (κ × α)) (m : OrdMap κ α), (l.map Prod.fst).Nodup →
      (∀ k ∈ l.map Prod.fst, k ∉ m.entries.map Prod.fst) →
      (l.foldl (fun m e => m.insert e.1 e.2) m).entries.Perm (l ++ m.entries) := by
    intro l
    induction l with
    | nil => exact fun m _ _ => List.Perm.refl _
    | cons e rest ih =>
      intro m hnd hnew
      rw [List.map_cons, List.nodup_cons] at hnd
      have hins : (m.insert e.1 e.2).entries.Perm (e :: m.entries) :=
        insertList_perm e.2 (hnew e.1 List.mem_cons_self)
      refine (ih (m.insert e.1 e.2) hnd.2 ?_).trans ?_
      · intro k hk hm
        rcases List.mem_cons.mp ((hins.map Prod.fst).mem_iff.mp hm) with rfl | hm
        · exact hnd.1 hk
        · exact hnew k (List.mem_cons_of_mem _ hk) hm
      · exact (hins.append_left rest).trans List.perm_middle
  simpa [ofList, empty] using gen l empty h (by simp [empty])

/-! ### Lookups determine the map -/

theorem keys_nodup (m : OrdMap κ α) : m.keys.Nodup :=
  List.Pairwise.map Prod.fst (fun _ _ h => ne_of_lt h) m.sorted

theorem get_eq_some {m : OrdMap κ α} {k : κ} {v : α} : m.get k = some v ↔ (k, v) ∈ m.entries := by
  obtain ⟨l, hl⟩ := m
  show lookupList k l = some v ↔ (k, v) ∈ l
  induction l with
  | nil => simp [lookupList_nil]
  | cons e rest ih =>
    obtain ⟨k', v'⟩ := e
    obtain ⟨hhd, htl⟩ := List.pairwise_cons.mp hl
    rw [lookupList_cons, List.mem_cons, Prod.mk.injEq]
    split_ifs with h
    · -- the keys behind are greater
      subst h
      have hnot : (k, v) ∉ rest := fun hmem => lt_irrefl k (hhd _ hmem)
      rw [Option.some.injEq]
      constructor
      · exact fun he => Or.inl ⟨rfl, he.symm⟩
      · rintro (⟨-, he⟩ | hmem)
        · exact he.symm
        · exact absurd hmem hnot
    · rw [ih htl]
      constructor
      · exact Or.inr
      · rintro (⟨he, -⟩ | hmem)
        · exact absurd he h
        · exact hmem

/-- Two maps with the same lookups are the same. -/
theorem ext_get {m m' : OrdMap κ α} (h : ∀ k, m.get k = m'.get k) : m = m' := by
  have hmem : ∀ e, e ∈ m.entries ↔ e ∈ m'.entries := by
    rintro ⟨k, v⟩
    rw [← get_eq_some, ← get_eq_some, h k]
  have hperm : m.entries.Perm m'.entries :=
    (List.perm_ext_iff_of_nodup (List.Nodup.of_map Prod.fst m.keys_nodup)
      (List.Nodup.of_map _ m'.keys_nodup)).mpr hmem
  have hentries : m.entries = m'.entries :=
    hperm.eq_of_pairwise (fun a b _ _ hab hba => absurd hba (lt_asymm hab)) m.sorted m'.sorted
  cases m
  cases m'
  cases hentries
  rfl

/-- A map made of a list without repeated keys. -/
theorem get_ofList {l : List (κ × α)} (h : (l.map Prod.fst).Nodup) {k : κ} {v : α} :
    (ofList l).get k = some v ↔ (k, v) ∈ l := by
  rw [get_eq_some]
  exact (ofList_perm h).mem_iff

/-- The order of a list without repeated keys does not matter. -/
theorem ofList_eq_of_perm {l l' : List (κ × α)} (hp : l.Perm l') (h : (l.map Prod.fst).Nodup) :
    ofList l = ofList l' := by
  have h' : (l'.map Prod.fst).Nodup := (hp.map Prod.fst).nodup_iff.mp h
  apply ext_get
  intro k
  apply Option.ext
  intro v
  rw [get_ofList h, get_ofList h', hp.mem_iff]

/-- A map remade from its entries, the values changed. -/
theorem get_ofList_map {β : Type} (m : OrdMap κ α) (f : α → β) (k : κ) :
    (ofList (m.entries.map fun e => (e.1, f e.2))).get k = (m.get k).map f := by
  have hkeys : (m.entries.map fun e => (e.1, f e.2)).map Prod.fst = m.keys := by
    rw [List.map_map]
    rfl
  have hget : ∀ v, (ofList (m.entries.map fun e => (e.1, f e.2))).get k = some v ↔
      (m.get k).map f = some v := by
    intro v
    rw [get_ofList (by rw [hkeys]; exact m.keys_nodup), List.mem_map, Option.map_eq_some_iff]
    constructor
    · rintro ⟨⟨k', a⟩, hmem, he⟩
      cases he
      exact ⟨a, get_eq_some.mpr hmem, rfl⟩
    · rintro ⟨a, ha, rfl⟩
      exact ⟨(k, a), get_eq_some.mp ha, rfl⟩
  exact Option.ext hget

/-- A list whose keys increase is the list of entries of its map. -/
theorem entries_ofList {l : List (κ × α)} (h : l.Pairwise fun a b => a.1 < b.1) :
    (ofList l).entries = l := by
  have hnodup : (l.map Prod.fst).Nodup := List.Pairwise.map Prod.fst (fun _ _ h => ne_of_lt h) h
  exact (ofList_perm hnodup).eq_of_pairwise (fun a b _ _ hab hba => absurd hba (lt_asymm hab))
    (ofList l).sorted h

/-! ### Changing the values -/

section Map

variable {β : Type}

/-- Change the values, key by key. -/
def map (f : α → β) (m : OrdMap κ α) : OrdMap κ β where
  entries := m.entries.map fun e => (e.1, f e.2)
  sorted := List.Pairwise.map _ (fun _ _ h => h) m.sorted

theorem map_insert (f : α → β) (m : OrdMap κ α) (k : κ) (v : α) :
    (m.insert k v).map f = (m.map f).insert k (f v) := by
  have hlist : ∀ l : List (κ × α), (insertList k v l).map (fun e => (e.1, f e.2)) =
      insertList k (f v) (l.map fun e => (e.1, f e.2)) := by
    intro l
    induction l with
    | nil => rfl
    | cons e rest ih =>
      obtain ⟨k', v'⟩ := e
      simp only [insertList_cons, List.map_cons]
      split_ifs
      · rfl
      · rfl
      · rw [List.map_cons, ih]
  show OrdMap.mk _ _ = OrdMap.mk _ _
  congr 1
  exact hlist m.entries

theorem map_ofList (f : α → β) (l : List (κ × α)) :
    (ofList l).map f = ofList (l.map fun e => (e.1, f e.2)) := by
  -- generalised to any map to start from
  have gen : ∀ (l : List (κ × α)) (m : OrdMap κ α),
      (l.foldl (fun m e => m.insert e.1 e.2) m).map f =
        (l.map fun e => (e.1, f e.2)).foldl (fun m e => m.insert e.1 e.2) (m.map f) := by
    intro l
    induction l with
    | nil => exact fun m => rfl
    | cons e rest ih =>
      intro m
      rw [List.foldl_cons, List.map_cons, List.foldl_cons, ih, map_insert]
  exact gen l empty

end Map

end OrdMap

/-- A finite set of ordered elements. -/
abbrev OrdSet (κ : Type) [LinearOrder κ] : Type := OrdMap κ Unit

namespace OrdSet

variable {κ : Type} [LinearOrder κ]

def ofList (l : List κ) : OrdSet κ := OrdMap.ofList (l.map fun k => (k, ()))

def contains (s : OrdSet κ) (k : κ) : Bool := (s.get k).isSome

/-- Repetitions and order do not matter. -/
theorem contains_ofList {l : List κ} {k : κ} : (ofList l).contains k = true ↔ k ∈ l := by
  -- generalised to any set to start from
  have gen : ∀ (l : List κ) (s : OrdSet κ),
      (((l.map fun k => (k, ())).foldl (fun m e => m.insert e.1 e.2) s).get k).isSome = true ↔
        k ∈ l ∨ (s.get k).isSome = true := by
    intro l
    induction l with
    | nil => simp
    | cons a rest ih =>
      intro s
      rw [List.map_cons, List.foldl_cons, ih]
      by_cases ha : k = a
      · subst ha
        simp [OrdMap.get_insert_self]
      · simp [OrdMap.get_insert_ne s ha, ha]
  simpa [ofList, contains, OrdMap.ofList] using gen l OrdMap.empty

/-- Two sets with the same elements are the same. -/
theorem ext_contains {s s' : OrdSet κ} (h : ∀ k, s.contains k = s'.contains k) : s = s' := by
  apply OrdMap.ext_get
  intro k
  have hk := h k
  unfold contains at hk
  cases hs : s.get k <;> cases hs' : s'.get k <;> simp_all

end OrdSet
