import TokenRules.Proofs.Json.Quotation

/-! What can be read stays in range: an integer has no more digits when it is written out again, and
an escape stands for a code point. -/
namespace TokenRules

theorem Text.digitValue?_lt (digit : Text.digitValue? c = some d) : d < 10 := by
  unfold Text.digitValue? at digit
  split at digit
  · split at digit
    · next range =>
      obtain rfl := Option.some.inj digit
      simp only [Bool.and_eq_true, decide_eq_true_eq] at range
      exact Nat.sub_lt_left_of_lt_add range.1 (Nat.lt_succ_of_le range.2)
    · contradiction
  · obtain ⟨first, found, rfl⟩ := Option.map_eq_some_iff.mp digit
    have inside := List.find?_some found
    simp only [Bool.and_eq_true, decide_eq_true_eq] at inside
    exact Nat.sub_lt_left_of_lt_add inside.1 inside.2

namespace Decimal

theorem foldl_digits_lt {ds : List Nat} (digits : ∀ d ∈ ds, d < 10) (n : Nat) :
    ds.foldl (fun n d => n * 10 + d) n < (n + 1) * Nat.pow 10 ds.length := by
  induction ds generalizing n with
  | nil => simp
  | cons d ds ih =>
    obtain ⟨digit, others⟩ := List.forall_mem_cons.mp digits
    calc
      _ < (n * 10 + d + 1) * Nat.pow 10 ds.length := ih others (n * 10 + d)
      _ ≤ ((n + 1) * 10) * Nat.pow 10 ds.length := Nat.mul_le_mul_right _ (by omega)
      _ = (n + 1) * Nat.pow 10 (ds.length + 1) := by
        rw [Nat.mul_assoc, Nat.mul_comm 10]
        rfl

theorem decimal_length {ds : List Nat} (digits : ∀ d ∈ ds, d < 10) (short : ds.length ≤ k)
    (positive : 0 < k) : (Text.decimal (digitsValue ds)).length ≤ k := by
  have less := foldl_digits_lt digits 0
  rw [Nat.zero_add, Nat.one_mul] at less
  exact (Text.decimal_length_le_iff positive).mpr
    (Nat.lt_of_lt_of_le less (Nat.pow_le_pow_right (by decide) short))

theorem readInteger_digits (read : readInteger t = .ok i) :
    (Text.decimal i.natAbs).length ≤ maxIntegerDigits := by
  simp only [readInteger] at read
  split at read
  · contradiction
  · split at read
    · contradiction
    · next fits =>
      split at read
      · contradiction
      · generalize same : List.filterMap Text.digitValue? _ = ds at fits read
        have digits : ∀ d ∈ ds, d < 10 := by
          rw [← same]
          intro d member
          obtain ⟨c, -, digit⟩ := List.mem_filterMap.mp member
          exact Text.digitValue?_lt digit
        have value : i.natAbs = digitsValue ds := by
          rw [← Except.ok.inj read]
          split
          · exact Int.natAbs_neg _
          · rfl
        rw [value]
        exact decimal_length digits (Nat.not_lt.mp fits) (by decide)

end Decimal

namespace Json.StringLiteral

theorem hexValue?_le (c : CodePoint) : (Text.hexValue? c).getD 0 ≤ 0xF := by
  have within : ∀ first last base, (decide (first ≤ c) && decide (c ≤ last)) → last ≤ 0xF + base →
      c - base ≤ 0xF := by
    simp only [Bool.and_eq_true, decide_eq_true_eq]
    exact fun first last base range short => Nat.sub_le_of_le_add (Nat.le_trans range.2 short)
  fun_cases Text.hexValue? c with
  | case1 digit => exact within _ _ 0x30 digit (by decide)
  | case2 _ lower => exact within _ _ 0x57 lower (by decide)
  | case3 _ _ upper => exact within _ _ 0x37 upper (by decide)
  | case4 => exact Nat.zero_le _

theorem unit?_le (found : unit? t = some n) : n ≤ 0xFFFF := by
  obtain ⟨digits, rest, -, four, -, rfl⟩ := unit?_eq_some.mp found
  match digits, four with
  | [a, b, c, d], _ =>
    have := hexValue?_le a
    have := hexValue?_le b
    have := hexValue?_le c
    have := hexValue?_le d
    simp only [Text.hexNumber, List.foldl_cons, List.foldl_nil]
    omega

/-- An escape stands for a code point. -/
theorem piece_le (found : piece c rest = .decoded d length) : d ≤ 0x10FFFF := by
  have pair : ∀ high low : Nat, high ≤ 0xDBFF → low ≤ 0xDFFF →
      0x10000 + (high - 0xD800) * 0x400 + (low - 0xDC00) ≤ 0x10FFFF := by omega
  unfold piece at found
  split at found
  · split at found
    · contradiction
    · next n unit =>
      have single : n ≤ 0x10FFFF := Nat.le_trans (unit?_le unit) (by decide)
      split at found
      · next isHigh =>
        simp only [isHighSurrogate, Bool.and_eq_true, decide_eq_true_eq] at isHigh
        split at found
        · next low escape =>
          obtain ⟨digits, rest', -, -, -, -, isLow⟩ := lowEscape?_eq_some.mp escape
          simp only [isLowSurrogate, Bool.and_eq_true, decide_eq_true_eq] at isLow
          obtain ⟨rfl, -⟩ := Piece.decoded.inj found
          exact pair n low isHigh.2 isLow.2
        · obtain ⟨rfl, -⟩ := Piece.decoded.inj found
          exact single
      · obtain ⟨rfl, -⟩ := Piece.decoded.inj found
        exact single
  · split at found
    · next meant short =>
      have table : ∀ escape ∈ StringPart.shortEscapes, escape.2 ≤ 0x10FFFF := by decide
      obtain ⟨rfl, -⟩ := Piece.decoded.inj found
      exact table _ (shortEscape?_eq_some.mp short)
    · contradiction

theorem decode_le (decoded : decode p t = .ok s) : ∀ c ∈ s, c ∈ t ∨ c ≤ 0x10FFFF := by
  fun_induction decode p t generalizing s with
  | case1 =>
    obtain rfl := Except.ok.inj decoded
    simp
  | case2 p c =>
    obtain rfl := Except.ok.inj decoded
    exact fun c member => .inl member
  | case3 p c rest d length found text read ih =>
    obtain rfl := Except.ok.inj decoded
    refine List.forall_mem_cons.mpr ⟨.inr (piece_le found), ?_⟩
    intro x member
    refine (ih read x member).imp_left ?_
    intro among
    exact List.mem_cons_of_mem _ (List.mem_cons_of_mem _ (List.mem_of_mem_drop among))
  | case4 => contradiction
  | case5 => contradiction
  | case6 p c d rest plain text read ih =>
    obtain rfl := Except.ok.inj decoded
    refine List.forall_mem_cons.mpr ⟨.inl List.mem_cons_self, ?_⟩
    intro x member
    exact (ih read x member).imp_left (List.mem_cons_of_mem _)
  | case7 => contradiction

end Json.StringLiteral
end TokenRules
