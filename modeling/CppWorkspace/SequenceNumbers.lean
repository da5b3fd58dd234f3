/-
# `CppWorkspace.SequenceNumbers` — the map of 16-bit sequence numbers

`sn_cmp` compares two numbers of 16 bits so that a number comes before the half of the
numbers that follow it, also where they begin again at 0.  In a window of 32768 numbers
this is the order of the window but for its two ends: if the window does not pass 65535,
the last number is 32767 above the first one, and the strict test of the first branch
fails.  If it does pass, the second branch sees a difference of 32769 and is right.

So `map_sn` holds the numbers of a window in order exactly if not both ends of a window
that does not pass 65535 are among them (`orders_iff`).
-/
import CppWorkspace.Lib.OrderedMaps

namespace CppWorkspace.SequenceNumbers

open OrderedMaps

def MP_SN_JUDGE_CONDITION : Int := 32767

/-- The operands of `-` are promoted to `int`. -/
def sn_cmp (sn1 sn2 : UInt16) : Bool :=
  if sn1 < sn2 && decide ((sn2.toNat : Int) - sn1.toNat < MP_SN_JUDGE_CONDITION) then true
  else if sn2 < sn1 && decide ((sn1.toNat : Int) - sn2.toNat > MP_SN_JUDGE_CONDITION) then true
  else false

/-- How far `sn` is behind `s`. -/
def offset (s sn : UInt16) : Nat := (sn - s).toNat

/-- The window `s, s + 1, …, s + 32767`. -/
def Window (s : UInt16) (S : Set UInt16) : Prop := ∀ sn ∈ S, offset s sn ≤ 32767

/-- `map_sn` after these entries are inserted. -/
def map_sn (l : List (UInt16 × String)) : List (UInt16 × String) := insertAll sn_cmp l

/-- A map with the numbers of `S` as keys keeps them in the order of the window. -/
structure Orders (s : UInt16) (S : Set UInt16) : Prop where
  strictWeak : StrictWeakOn sn_cmp S
  distinct : ∀ a ∈ S, ∀ b ∈ S, a ≠ b → ¬ Equivalent sn_cmp a b
  /-- In whatever order the numbers of `S` are inserted, the map has one entry for each, the
  first one, and they come in the order of the window. -/
  map : ∀ l : List (UInt16 × String), (∀ sn, sn ∈ keys l ↔ sn ∈ S) →
    (∀ sn, sn ∈ keys (map_sn l) ↔ sn ∈ S) ∧
      (keys (map_sn l)).Pairwise (offset s · < offset s ·) ∧
      ∀ sn, (map_sn l).lookup sn = l.lookup sn

/-- Both ends of a window that does not pass 65535. -/
def HasEnds (s : UInt16) (S : Set UInt16) : Prop := s ≤ 32768 ∧ s ∈ S ∧ s + 32767 ∈ S

theorem sn_cmp_iff {a b : UInt16} : sn_cmp a b = true ↔
    (a.toNat < b.toNat ∧ b.toNat < a.toNat + 32767) ∨ b.toNat + 32767 < a.toNat := by
  unfold sn_cmp MP_SN_JUDGE_CONDITION
  simp only [Bool.and_eq_true, decide_eq_true_eq, UInt16.lt_iff_toNat_lt]
  split
  · simp only [true_iff]
    omega
  · split
    · simp only [true_iff]
      omega
    · simp only [Bool.false_eq_true, false_iff]
      omega

theorem offset_eq (s sn : UInt16) :
    offset s sn =
      if s.toNat ≤ sn.toNat then sn.toNat - s.toNat else sn.toNat + 65536 - s.toNat := by
  have hs := s.toNat_lt
  have hsn := sn.toNat_lt
  rw [offset, UInt16.toNat_sub]
  split <;> omega

theorem offset_injective (s : UInt16) : Function.Injective (offset s) := by
  intro a b h
  have ha := a.toNat_lt
  have hb := b.toNat_lt
  have hs := s.toNat_lt
  rw [offset_eq, offset_eq] at h
  apply UInt16.toNat_inj.mp
  split at h <;> split at h <;> omega

theorem eq_of_offset_eq {s sn : UInt16} (h : offset s sn = 32767) : sn = s + 32767 := by
  have hs := s.toNat_lt
  have hsn := sn.toNat_lt
  rw [offset_eq] at h
  apply UInt16.toNat_inj.mp
  rw [UInt16.toNat_add]
  change sn.toNat = (s.toNat + 32767) % 65536
  split at h <;> omega

theorem eq_of_offset_eq_zero {s sn : UInt16} (h : offset s sn = 0) : sn = s := by
  apply offset_injective s
  rw [h, offset, UInt16.sub_self]
  rfl

/-- If the numbers of `S` have the two ends among them, the window passes 65535. -/
theorem passes {s a b : UInt16} {S : Set UInt16} (hends : ¬ HasEnds s S) (ha : a ∈ S) (hb : b ∈ S)
    (ha0 : offset s a = 0) (hb1 : offset s b = 32767) : 32768 < s.toNat := by
  by_contra hs
  exact hends ⟨UInt16.le_iff_toNat_le.mpr (Nat.le_of_not_lt hs),
    eq_of_offset_eq_zero ha0 ▸ ha, eq_of_offset_eq hb1 ▸ hb⟩

theorem follows {s : UInt16} {S : Set UInt16} (hS : Window s S) (hends : ¬ HasEnds s S) :
    Follows sn_cmp (offset s) S := by
  intro a ha b hb
  have hab := passes hends ha hb
  have hba := passes hends hb ha
  have hwa := hS a ha
  have hwb := hS b hb
  have hs := s.toNat_lt
  have hat := a.toNat_lt
  have hbt := b.toNat_lt
  rw [sn_cmp_iff]
  simp only [offset_eq] at hab hba hwa hwb ⊢
  split at hwa <;> split at hwb <;> simp only [*, if_true, if_false] at hab hba ⊢ <;> omega

/-- The two ends are equivalent if the window does not pass 65535. -/
theorem equivalent_ends {s : UInt16} (hs : s ≤ 32768) : Equivalent sn_cmp s (s + 32767) := by
  have hs : s.toNat ≤ 32768 := UInt16.le_iff_toNat_le.mp hs
  have hadd : (s + 32767).toNat = s.toNat + 32767 := by
    rw [UInt16.toNat_add]
    change (s.toNat + 32767) % 65536 = s.toNat + 32767
    omega
  rw [Equivalent, ← Bool.not_eq_true, ← Bool.not_eq_true, sn_cmp_iff, sn_cmp_iff, hadd]
  omega

/-- The map orders the numbers of a window exactly if not both ends of a window that does not
pass 65535 are among them. -/
theorem orders_iff {s : UInt16} {S : Set UInt16} (hS : Window s S) :
    Orders s S ↔ ¬ HasEnds s S := by
  constructor
  · rintro h ⟨hs, hfirst, hlast⟩
    refine h.distinct s hfirst (s + 32767) hlast (fun heq => ?_) (equivalent_ends hs)
    have hne : (s + 32767).toNat = s.toNat := congrArg UInt16.toNat heq.symm
    have hlt := UInt16.le_iff_toNat_le.mp hs
    rw [UInt16.toNat_add] at hne
    change (s.toNat + 32767) % 65536 = s.toNat at hne
    omega
  · intro hends
    have hfollows := follows hS hends
    have hinj : Set.InjOn (offset s) S := (offset_injective s).injOn
    refine ⟨hfollows.strictWeakOn, fun a ha b hb hab => hfollows.not_equivalent hinj ha hb hab,
      fun l hl => ?_⟩
    obtain ⟨hsorted, hlookup⟩ := hfollows.insertAll hinj fun k hk => (hl k).mp hk
    refine ⟨fun sn => ?_, hsorted, hlookup⟩
    rw [map_sn, mem_keys_iff, hlookup, ← mem_keys_iff, hl]

/-- The numbers that `func` inserts. -/
theorem orders_func : Orders 65531 {sn | sn ∈ [65534, 1, 65531, 65535, 3, 65532, 0]} := by
  refine (orders_iff ?_).mpr ?_
  · change ∀ sn ∈ [65534, 1, 65531, 65535, 3, 65532, 0], offset 65531 sn ≤ 32767
    simp only [List.forall_mem_cons]
    exact ⟨by decide, by decide, by decide, by decide, by decide, by decide, by decide,
      List.forall_mem_nil _⟩
  · rintro ⟨hs, -, -⟩
    exact absurd hs (by decide)

/-- Of 0 and 32767, the map keeps the one that comes first. -/
theorem not_orders : ¬ ∀ s S, Window s S → Orders s S := by
  intro h
  have hwindow : Window 0 {sn | sn ∈ [0, 32767]} := by
    change ∀ sn ∈ [0, 32767], offset 0 sn ≤ 32767
    simp only [List.forall_mem_cons]
    exact ⟨by decide, by decide, List.forall_mem_nil _⟩
  have hmap := (h 0 {sn | sn ∈ [0, 32767]} hwindow).map [(0, "first"), (32767, "last")]
    fun sn => Iff.rfl
  have hlast : 32767 ∈ keys (map_sn [(0, "first"), (32767, "last")]) :=
    (hmap.1 32767).mpr (by decide)
  exact absurd hlast (by decide)

end CppWorkspace.SequenceNumbers
