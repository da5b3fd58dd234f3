/-
# `CppWorkspace.Lib.OrderedMaps` — maps that are ordered by a comparison

`std::map` with a comparison `lt` of its own, as the standard describes it: two keys are
`Equivalent` if neither comes before the other, and a new entry goes before the first key
that it is before, unless an equivalent key is there already.  What the standard asks of
`lt` is `StrictWeakOn`.

A comparison usually `Follows` a rank, on some set of keys at least.  On this set it is a
strict weak order, and a map of such keys stays sorted by the rank; if different keys have
different ranks, every key has an entry, the one that came first (`Follows.insertAll`).
-/
import Mathlib.Data.List.Induction
import Mathlib.Data.Set.Function
import Mathlib.Order.Basic

namespace CppWorkspace.OrderedMaps

variable {K V R : Type}

/-- Neither key comes before the other. -/
def Equivalent (lt : K → K → Bool) (a b : K) : Prop := lt a b = false ∧ lt b a = false

/-- What a map asks of its comparison. -/
structure StrictWeakOn (lt : K → K → Bool) (S : Set K) : Prop where
  irrefl : ∀ a ∈ S, lt a a = false
  trans : ∀ a ∈ S, ∀ b ∈ S, ∀ c ∈ S, lt a b = true → lt b c = true → lt a c = true
  equiv : ∀ a ∈ S, ∀ b ∈ S, ∀ c ∈ S,
    Equivalent lt a b → Equivalent lt b c → Equivalent lt a c

def insert (lt : K → K → Bool) (e : K × V) : List (K × V) → List (K × V)
  | [] => [e]
  | e' :: m =>
      if lt e.1 e'.1 then e :: e' :: m
      else if lt e'.1 e.1 then e' :: insert lt e m
      else e' :: m

/-- The map after the entries of `l` are inserted one by one. -/
def insertAll (lt : K → K → Bool) (l : List (K × V)) : List (K × V) :=
  l.foldl (fun m e => insert lt e m) []

def keys (m : List (K × V)) : List K := m.map Prod.fst

@[simp] theorem keys_nil : keys ([] : List (K × V)) = [] := rfl

@[simp] theorem keys_cons (e : K × V) (m : List (K × V)) : keys (e :: m) = e.1 :: keys m := rfl

theorem insertAll_concat (lt : K → K → Bool) (l : List (K × V)) (e : K × V) :
    insertAll lt (l ++ [e]) = insert lt e (insertAll lt l) := by
  rw [insertAll, List.foldl_append]
  rfl

theorem mem_keys_iff [BEq K] [LawfulBEq K] {k : K} {m : List (K × V)} :
    k ∈ keys m ↔ (m.lookup k).isSome = true := by
  rw [List.lookup_isSome_iff, keys, List.mem_map]
  constructor
  · rintro ⟨x, hx, hk⟩
    exact ⟨x, hx, beq_iff_eq.mpr hk.symm⟩
  · rintro ⟨x, hx, hk⟩
    exact ⟨x, hx, (beq_iff_eq.mp hk).symm⟩

theorem mem_of_mem_insert {lt : K → K → Bool} {e x : K × V} {m : List (K × V)}
    (h : x ∈ insert lt e m) : x = e ∨ x ∈ m := by
  induction m with
  | nil => exact .inl (List.mem_singleton.mp h)
  | cons e' m ih =>
      unfold insert at h
      split at h
      · exact List.mem_cons.mp h
      · split at h
        · rcases List.mem_cons.mp h with rfl | h
          · exact .inr List.mem_cons_self
          · exact (ih h).imp_right (List.mem_cons_of_mem e')
        · exact .inr h

/-! ## Comparisons with a rank -/

section
variable [LinearOrder R]

/-- On `S`, one key is before another if its rank is smaller. -/
def Follows (lt : K → K → Bool) (rank : K → R) (S : Set K) : Prop :=
  ∀ a ∈ S, ∀ b ∈ S, (lt a b = true ↔ rank a < rank b)

variable {lt : K → K → Bool} {rank : K → R} {S : Set K}

namespace Follows

theorem equivalent_iff (h : Follows lt rank S) {a b : K} (ha : a ∈ S) (hb : b ∈ S) :
    Equivalent lt a b ↔ rank a = rank b := by
  rw [Equivalent, ← Bool.not_eq_true, ← Bool.not_eq_true, h a ha b hb, h b hb a ha]
  constructor
  · rintro ⟨hab, hba⟩
    exact le_antisymm (not_lt.mp hba) (not_lt.mp hab)
  · intro heq
    rw [heq]
    exact ⟨lt_irrefl _, lt_irrefl _⟩

theorem strictWeakOn (h : Follows lt rank S) : StrictWeakOn lt S where
  irrefl a ha := Bool.not_eq_true _ ▸ fun ht => lt_irrefl _ ((h a ha a ha).mp ht)
  trans _ ha _ hb _ hc hab hbc :=
    (h _ ha _ hc).mpr (lt_trans ((h _ ha _ hb).mp hab) ((h _ hb _ hc).mp hbc))
  equiv _ ha _ hb _ hc hab hbc :=
    (h.equivalent_iff ha hc).mpr
      (((h.equivalent_iff ha hb).mp hab).trans ((h.equivalent_iff hb hc).mp hbc))

theorem not_equivalent (h : Follows lt rank S) (hinj : Set.InjOn rank S) {a b : K}
    (ha : a ∈ S) (hb : b ∈ S) (hab : a ≠ b) : ¬ Equivalent lt a b :=
  fun heq => hab (hinj ha hb ((h.equivalent_iff ha hb).mp heq))

variable {e : K × V} {m l : List (K × V)}

theorem sorted_insert (h : Follows lt rank S) (he : e.1 ∈ S) (hm : ∀ k ∈ keys m, k ∈ S)
    (hs : (keys m).Pairwise (rank · < rank ·)) :
    (keys (insert lt e m)).Pairwise (rank · < rank ·) := by
  induction m with
  | nil => exact List.pairwise_singleton ..
  | cons e' m ih =>
      obtain ⟨he', hm⟩ := List.forall_mem_cons.mp hm
      obtain ⟨hfirst, hs⟩ := List.pairwise_cons.mp hs
      unfold insert
      split
      · rename_i hlt
        have hlt := (h _ he _ he').mp hlt
        refine List.pairwise_cons.mpr ⟨fun k hk => ?_, List.pairwise_cons.mpr ⟨hfirst, hs⟩⟩
        rcases List.mem_cons.mp hk with rfl | hk
        · exact hlt
        · exact lt_trans hlt (hfirst k hk)
      · split
        · rename_i hlt
          refine List.pairwise_cons.mpr ⟨fun k hk => ?_, ih hm hs⟩
          obtain ⟨x, hx, rfl⟩ := List.mem_map.mp hk
          rcases mem_of_mem_insert hx with rfl | hx
          · exact (h _ he' _ he).mp hlt
          · exact hfirst _ (List.mem_map_of_mem hx)
        · exact List.pairwise_cons.mpr ⟨hfirst, hs⟩

theorem lookup_insert [BEq K] [LawfulBEq K] (h : Follows lt rank S) (hinj : Set.InjOn rank S)
    (he : e.1 ∈ S) (hm : ∀ k ∈ keys m, k ∈ S) (hs : (keys m).Pairwise (rank · < rank ·)) (k : K) :
    (insert lt e m).lookup k = (m ++ [e]).lookup k := by
  obtain ⟨a, v⟩ := e
  induction m with
  | nil => rfl
  | cons e' m ih =>
      obtain ⟨b, w⟩ := e'
      obtain ⟨hb, hm⟩ := List.forall_mem_cons.mp hm
      obtain ⟨hfirst, hs⟩ := List.pairwise_cons.mp hs
      unfold insert
      split
      · rename_i hlt
        have hlt := (h a he b hb).mp hlt
        by_cases hk : k = a
        · have hnone : ((b, w) :: m).lookup a = none := by
            rw [List.lookup_eq_none_iff]
            intro x hx
            rw [bne_iff_ne]
            rintro rfl
            rcases List.mem_cons.mp hx with rfl | hx
            · exact lt_irrefl _ hlt
            · exact lt_irrefl _ (lt_trans hlt (hfirst _ (List.mem_map_of_mem hx)))
          rw [List.lookup_append, hk, hnone, List.lookup_cons_self, List.lookup_cons_self]
          rfl
        · have hk := beq_false_of_ne hk
          simp [List.lookup_append, List.lookup_cons, hk]
      · split
        · rw [List.cons_append, List.lookup_cons, List.lookup_cons, ih hm hs]
        · rename_i hlt hgt
          have heq : a = b := hinj he hb ((h.equivalent_iff he hb).mp
            ⟨Bool.not_eq_true _ ▸ hlt, Bool.not_eq_true _ ▸ hgt⟩)
          by_cases hk : k = b
          · simp [hk]
          · have hk := beq_false_of_ne (heq ▸ hk)
            simp [List.lookup_append, List.lookup_cons, hk]

/-- The map is sorted, and every key has the entry that was inserted first. -/
theorem insertAll [BEq K] [LawfulBEq K] (h : Follows lt rank S) (hinj : Set.InjOn rank S)
    (hl : ∀ k ∈ keys l, k ∈ S) :
    (keys (OrderedMaps.insertAll lt l)).Pairwise (rank · < rank ·) ∧
      ∀ k, (OrderedMaps.insertAll lt l).lookup k = l.lookup k := by
  have hmem : ∀ l : List (K × V), ∀ k ∈ keys (OrderedMaps.insertAll lt l), k ∈ keys l := by
    intro l
    induction l using List.reverseRecOn with
    | nil => exact fun k hk => hk
    | append_singleton l e ih =>
        intro k hk
        rw [insertAll_concat] at hk
        obtain ⟨x, hx, rfl⟩ := List.mem_map.mp hk
        rcases mem_of_mem_insert hx with rfl | hx
        · exact List.mem_map_of_mem (List.mem_append_right l List.mem_cons_self)
        · obtain ⟨y, hy, hxy⟩ := List.mem_map.mp (ih _ (List.mem_map_of_mem hx))
          exact List.mem_map.mpr ⟨y, List.mem_append_left _ hy, hxy⟩
  induction l using List.reverseRecOn with
  | nil => exact ⟨List.Pairwise.nil, fun _ => rfl⟩
  | append_singleton l e ih =>
      have hl' : ∀ k ∈ keys l, k ∈ S := fun k hk => hl k (by
        rw [keys, List.map_append]
        exact List.mem_append_left _ hk)
      have he : e.1 ∈ S := hl _ (by
        rw [keys, List.map_append]
        exact List.mem_append_right _ List.mem_cons_self)
      obtain ⟨hs, hlookup⟩ := ih hl'
      have hin : ∀ k ∈ keys (OrderedMaps.insertAll lt l), k ∈ S := fun k hk => hl' k (hmem l k hk)
      rw [insertAll_concat]
      refine ⟨h.sorted_insert he hin hs, fun k => ?_⟩
      rw [h.lookup_insert hinj he hin hs, List.lookup_append, List.lookup_append, hlookup k]

end Follows

end

end CppWorkspace.OrderedMaps
