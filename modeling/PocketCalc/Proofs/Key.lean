import PocketCalc.Key
import PocketCalc.Proofs.Binary64.Numeral

/-!
# The characters of keys

The classes of characters that the keys type are disjoint: operators, figures (digits and points)
and letters, with the constant `e` among the letters.
-/

namespace PocketCalc

theorem isConstantChar_iff {c : Char} : isConstantChar c = true ↔ c = 'π' ∨ c = 'e' := by
  constructor
  · intro h
    obtain ⟨k, hk⟩ := Option.isSome_iff_exists.1 h
    rw [← Constant.symbol_of_ofSymbol? hk]
    cases k
    · exact .inl rfl
    · exact .inr rfl
  · rintro (rfl | rfl) <;> decide

theorem isFigure_iff {c : Char} : isFigure c = true ↔ c.isDigit = true ∨ c = '.' := by
  rw [isFigure, Bool.or_eq_true, beq_iff_eq]

theorem toNat_of_isLetter {c : Char} (h : isLetter c = true) : 65 ≤ c.toNat ∧ c.toNat ≤ 122 := by
  have hcase : (c.isUpper || c.isLower) = true := h
  rw [Bool.or_eq_true] at hcase
  rcases hcase with hupper | hlower
  · obtain ⟨hge, hle⟩ := of_decide_eq_true hupper
    have hge' : 65 ≤ c.toNat := UInt32.le_iff_toNat_le.1 hge
    have hle' : c.toNat ≤ 90 := UInt32.le_iff_toNat_le.1 hle
    omega
  · obtain ⟨hge, hle⟩ := Bool.and_eq_true_iff.1 hlower
    have hge' : 97 ≤ c.toNat := UInt32.le_iff_toNat_le.1 (of_decide_eq_true hge)
    have hle' : c.toNat ≤ 122 := UInt32.le_iff_toNat_le.1 (of_decide_eq_true hle)
    omega

/-! ### Disjoint classes -/

/-- An operator is none of the characters that values, groups and functions start or end with. -/
theorem classes_of_isOperatorChar {c : Char} (h : isOperatorChar c = true) :
    isFigure c = false ∧ isLetter c = false ∧ isConstantChar c = false ∧ endsValue c = false ∧
      c ≠ '(' ∧ c ≠ ')' := by
  have hc := isOperatorChar_iff.1 h
  simp only [List.mem_cons, List.not_mem_nil, or_false] at hc
  rcases hc with rfl | rfl | rfl | rfl | rfl | rfl | rfl | rfl <;> decide

/-- A digit or point is none of the characters that a group, a constant or a function starts
with. -/
theorem classes_of_isFigure {c : Char} (h : isFigure c = true) :
    isOperatorChar c = false ∧ isLetter c = false ∧ isConstantChar c = false ∧ c ≠ '(' := by
  obtain ⟨-, hle⟩ := toNat_of_isFigure h
  refine ⟨?_, ?_, ?_, ?_⟩
  · rw [Bool.eq_false_iff]
    intro hop
    rw [(classes_of_isOperatorChar hop).1] at h
    cases h
  · rw [Bool.eq_false_iff]
    intro hletter
    obtain ⟨hge, -⟩ := toNat_of_isLetter hletter
    omega
  · rw [Bool.eq_false_iff]
    intro hconstant
    rcases isConstantChar_iff.1 hconstant with rfl | rfl <;> cases h
  · rintro rfl
    cases h

theorem isFigure_of_isDigit {c : Char} (h : c.isDigit = true) : isFigure c = true := by
  simp [isFigure, h]

theorem isLetter_of_mem_name {f : Func} {c : Char} (h : c ∈ f.name) : isLetter c = true := by
  have hletters : f.name.all isLetter = true := by cases f <;> decide
  exact List.all_eq_true.1 hletters c h

end PocketCalc
