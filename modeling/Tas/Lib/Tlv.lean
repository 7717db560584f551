import Mathlib

/-! Areas of options: an option is a single byte that does nothing, a byte that ends the list, or a
kind, a length and a value. -/
namespace Tlv

/-- An option with a length: where it starts, and its length in bytes with kind and length. -/
structure Item where
  off : ℕ
  kind : BitVec 8
  len : ℕ
deriving DecidableEq

/-- The area of `n` bytes splits into these options from a position on. -/
inductive Splits (fin nop : BitVec 8) (b : ℕ → BitVec 8) (n : ℕ) : ℕ → List Item → Prop
  | out : Splits fin nop b n n []
  | fin {off} : off < n → b off = fin → Splits fin nop b n off []
  | nop {off items} : off < n → b off = nop → Splits fin nop b n (off + 1) items →
      Splits fin nop b n off items
  | item {off items} : b off ≠ fin → b off ≠ nop → 2 ≤ (b (off + 1)).toNat →
      off + (b (off + 1)).toNat ≤ n → Splits fin nop b n (off + (b (off + 1)).toNat) items →
      Splits fin nop b n off (⟨off, b off, (b (off + 1)).toNat⟩ :: items)

/-- The position of the last option of a kind. -/
def lastOf (kind : BitVec 8) (items : List Item) : Option ℕ :=
  (items.filter (·.kind = kind)).getLast?.map Item.off

variable {fin nop kind : BitVec 8} {b : ℕ → BitVec 8} {n off : ℕ} {items : List Item} {it : Item}

/-- The last option of a list, found from its front. -/
theorem lastOf_or_cons {x : Option ℕ} :
    (lastOf kind items).or (if it.kind = kind then some it.off else x) =
      (lastOf kind (it :: items)).or x := by
  unfold lastOf
  by_cases h : it.kind = kind
  · rw [if_pos h, List.filter_cons_of_pos (by simpa using h), List.getLast?_cons]
    cases (items.filter (·.kind = kind)).getLast? <;> rfl
  · rw [if_neg h, List.filter_cons_of_neg (by simpa using h)]

end Tlv
