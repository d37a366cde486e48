/-
ProvenoGateway/SortBy.lean

Sorting by a key, as a library of its own.

The sort is stable: elements of one key keep their order, so the result is a
function of the set of elements only where keys are distinct
(`sortBy_eq_of_perm`).  What is written one after the other in sorted order is
such a function more often: exactly if any two elements of one key are written
alike in either order (`flatMap_sortBy_iff`).
-/
import Mathlib.Data.List.Forall2
import Mathlib.Data.List.Sort
import Mathlib.Data.List.TakeWhile

section SortBy

variable {α β κ : Type} [LinearOrder κ]

/-- Insertion sort by a key. -/
def sortBy (key : α → κ) (l : List α) : List α := l.insertionSort fun a b => key a ≤ key b

variable {key : α → κ}

theorem sortBy_perm (l : List α) : (sortBy key l).Perm l := List.perm_insertionSort _ l

theorem mem_sortBy {l : List α} {a : α} : a ∈ sortBy key l ↔ a ∈ l := (sortBy_perm l).mem_iff

theorem sortBy_sorted (l : List α) : (sortBy key l).Pairwise fun a b => key a ≤ key b := by
  have : Std.Total fun a b : α => key a ≤ key b := ⟨fun a b => le_total (key a) (key b)⟩
  have : IsTrans α fun a b => key a ≤ key b := ⟨fun _ _ _ => le_trans⟩
  exact List.pairwise_insertionSort _ l

/-- Two sorted orders of elements that their keys tell apart are one. -/
theorem sortBy_eq_of_perm {l l' : List α} (hp : l.Perm l')
    (hkey : ∀ a ∈ l, ∀ b ∈ l, key a = key b → a = b) : sortBy key l = sortBy key l' := by
  have hperm : (sortBy key l).Perm (sortBy key l') :=
    (sortBy_perm l).trans (hp.trans (sortBy_perm l').symm)
  refine hperm.eq_of_pairwise ?_ (sortBy_sorted l) (sortBy_sorted l')
  intro a b ha hb hab hba
  exact hkey a (mem_sortBy.mp ha) b (hp.mem_iff.mpr (mem_sortBy.mp hb)) (le_antisymm hab hba)

theorem map_sortBy (f : α → β) (key : β → κ) (l : List α) :
    (sortBy (key ∘ f) l).map f = sortBy key (l.map f) :=
  List.map_insertionSort _ _ f l fun _ _ _ _ => Iff.rfl

/-! ### Writing the elements in order -/

/-- In either order the two elements are written alike. -/
def Swaps (text : α → List β) (a b : α) : Prop := text a ++ text b = text b ++ text a

variable {text : α → List β}

/-- An element goes past those it swaps with. -/
theorem flatMap_move {a : α} {before after : List α} (h : ∀ b ∈ before, Swaps text a b) :
    (before ++ a :: after).flatMap text = text a ++ (before ++ after).flatMap text := by
  induction before with
  | nil => rfl
  | cons b before ih =>
    obtain ⟨hb, hrest⟩ := List.forall_mem_cons.mp h
    have hba : text b ++ text a = text a ++ text b := hb.symm
    rw [List.cons_append, List.flatMap_cons, ih hrest, ← List.append_assoc, hba,
      List.append_assoc, List.cons_append, List.flatMap_cons]

/-- Two sorted orders of the same elements are written alike, if elements of one
key swap. -/
theorem flatMap_eq_of_perm {l l' : List α} (hp : l.Perm l')
    (hl : l.Pairwise fun a b => key a ≤ key b) (hl' : l'.Pairwise fun a b => key a ≤ key b)
    (h : ∀ a ∈ l, ∀ b ∈ l, key a = key b → Swaps text a b) :
    l.flatMap text = l'.flatMap text := by
  induction l generalizing l' with
  | nil => rw [hp.nil_eq]
  | cons a l ih =>
    obtain ⟨hle, hl⟩ := List.pairwise_cons.mp hl
    obtain ⟨before, after, rfl⟩ := List.append_of_mem (hp.mem_iff.mp List.mem_cons_self)
    -- what comes before `a` in the other order has its key
    have hbefore : ∀ b ∈ before, Swaps text a b := by
      intro b hb
      have hmem : b ∈ a :: l := hp.mem_iff.mpr (List.mem_append_left _ hb)
      have hba : key b ≤ key a :=
        (List.pairwise_append.mp hl').2.2 b hb a List.mem_cons_self
      have hab : key a ≤ key b := by
        rcases List.mem_cons.mp hmem with rfl | hmem
        · exact le_refl _
        · exact hle b hmem
      exact h a List.mem_cons_self b hmem (le_antisymm hab hba)
    have hrest : l.Perm (before ++ after) := (hp.trans List.perm_middle).cons_inv
    have hsorted : (before ++ after).Pairwise fun a b => key a ≤ key b :=
      hl'.sublist ((List.Sublist.refl before).append (List.sublist_cons_self a after))
    rw [flatMap_move hbefore, List.flatMap_cons,
      ih hrest hl hsorted fun b hb c hc =>
        h b (List.mem_cons_of_mem _ hb) c (List.mem_cons_of_mem _ hc)]

/-- The element has a smaller key. -/
def below (key : α → κ) (k : κ) (b : α) : Bool := decide ¬ k ≤ key b

/-- Where an element of a key is inserted. -/
theorem insert_eq (a : α) (l : List α) :
    l.orderedInsert (fun a b => key a ≤ key b) a =
      l.takeWhile (below key (key a)) ++ a :: l.dropWhile (below key (key a)) :=
  List.orderedInsert_eq_take_drop _ a l

/-- Two elements of one key in front are sorted to one place, in their order. -/
theorem sortBy_front {a b : α} (hkey : key a = key b) (l : List α) :
    ∃ before after, sortBy key (a :: b :: l) = before ++ a :: b :: after ∧
      sortBy key (b :: a :: l) = before ++ b :: a :: after := by
  have hplace : ∀ {x y : α}, key x = key a → key y = key a → ∀ S : List α,
      (S.orderedInsert (fun a b => key a ≤ key b) y).orderedInsert (fun a b => key a ≤ key b) x =
        S.takeWhile (below key (key a)) ++ x :: y :: S.dropWhile (below key (key a)) := by
    intro x y hx hy S
    rw [insert_eq, insert_eq, hx, hy]
    have hall : ∀ c ∈ S.takeWhile (below key (key a)), below key (key a) c = true :=
      fun c hc => List.mem_takeWhile_imp hc
    have hstop : ¬ below key (key a) y = true := by
      rw [below, hy]
      simp
    rw [List.takeWhile_append_of_pos hall, List.dropWhile_append_of_pos hall,
      List.takeWhile_cons_of_neg hstop, List.dropWhile_cons_of_neg hstop, List.append_nil]
  exact ⟨_, _, hplace rfl hkey.symm (sortBy key l), hplace hkey.symm rfl (sortBy key l)⟩

/-- What is written in sorted order is the same in every order of the elements,
if and only if any two of one key swap. -/
theorem flatMap_sortBy_iff {l : List α} :
    (∀ l' : List α, l.Perm l' → (sortBy key l').flatMap text = (sortBy key l).flatMap text) ↔
      ∀ a ∈ l, ∀ b ∈ l, key a = key b → Swaps text a b := by
  constructor
  · intro h a ha b hb hkey
    obtain ⟨before, after, rfl⟩ := List.append_of_mem ha
    rcases List.mem_cons.mp (List.perm_middle.mem_iff.mp hb) with rfl | hb
    · rfl
    · obtain ⟨rest, hrest⟩ : ∃ rest, (before ++ after).Perm (b :: rest) := by
        obtain ⟨x, y, hxy⟩ := List.append_of_mem hb
        exact ⟨x ++ y, by rw [hxy]; exact List.perm_middle⟩
      -- the two in front, in either order
      have hab : (before ++ a :: after).Perm (a :: b :: rest) :=
        List.perm_middle.trans (hrest.cons a)
      have hba : (before ++ a :: after).Perm (b :: a :: rest) :=
        hab.trans (List.Perm.swap b a rest)
      obtain ⟨x, y, hsort, hsort'⟩ := sortBy_front hkey rest
      have hsame := (h _ hab).trans (h _ hba).symm
      rw [hsort, hsort'] at hsame
      simp only [List.flatMap_append, List.flatMap_cons] at hsame
      have hpair := List.append_cancel_left hsame
      rw [← List.append_assoc, ← List.append_assoc] at hpair
      exact List.append_cancel_right hpair
  · intro h l' hp
    refine (flatMap_eq_of_perm ((sortBy_perm l).trans (hp.trans (sortBy_perm l').symm))
      (sortBy_sorted l) (sortBy_sorted l') ?_).symm
    intro a ha b hb
    exact h a (mem_sortBy.mp ha) b (mem_sortBy.mp hb)

end SortBy
