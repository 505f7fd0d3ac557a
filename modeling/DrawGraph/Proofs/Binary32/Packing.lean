import DrawGraph.Binary32.Basic
import DrawGraph.Proofs.Binary32.Rounding

/-!
# Bit patterns of numbers

A pattern holds a sign, a biased exponent and the digits of the mantissa below the first. What is
packed is unpacked again, and a pattern is that of the size it stands for.
-/

namespace DrawGraph

namespace Binary32

open Float.Model Float.Model.UnpackedFloat

/-! ## Numbers of a canonical size -/

variable {m : Nat} {q : Int}

/-- Numbers with the least exponent may lack the first digit. -/
theorem pack_eq (h : Canonical m q) (s : Sign) :
    UnpackedFloat.pack .binary32 (.finite s m q h.pos) =
      if 2 ^ 23 ≤ m then packComponents .binary32 s (.ofNat _ (q + 150).toNat) (.ofNat _ m)
      else packComponents .binary32 s 0#8 (.ofNat _ m) := by
  have hbias : (q + Format.binary32.exponentBias +
      Format.binary32.mantissaBitsWithoutImplicit).toNat = (q + 150).toNat := by
    change (q + 127 + 23).toNat = _
    omega
  have hhigh := h.high
  have hlog : m.log2 + 1 = Format.binary32.mantissaBits ↔ 2 ^ 23 ≤ m := by
    have hlt : m.log2 < 24 := (Nat.log2_lt h.pos.ne').2 h.lt
    rw [← Nat.le_log2 h.pos.ne']
    change m.log2 + 1 = 24 ↔ _
    omega
  simp only [UnpackedFloat.pack, hbias, hlog]
  rw [if_neg (by change ¬ 256 ≤ _; omega)]

/-- The first digit stands before the others. -/
theorem toNat_one_append (f : BitVec 23) : (1#1 ++ f).toNat = f.toNat + 2 ^ 23 := by
  rw [BitVec.toNat_append, ← Nat.shiftLeft_add_eq_or_of_lt f.isLt, Nat.shiftLeft_eq, Nat.add_comm]
  rfl

theorem unpack_pack (h : Canonical m q) (s : Sign) :
    (Float32.Model.pack (.finite s m q h.pos)).unpack = .finite s m q h.pos := by
  change UnpackedFloat.unpack .binary32 (UnpackedFloat.pack .binary32 (.finite s m q h.pos)) = _
  have hlow := h.low
  have hhigh := h.high
  have hlt := h.lt
  rw [pack_eq h]
  split
  · next hfirst =>
    have hexp : (BitVec.ofNat 8 (q + 150).toNat).toNat = (q + 150).toNat := by
      rw [BitVec.toNat_ofNat]
      omega
    have hones : BitVec.ofNat 8 (q + 150).toNat ≠ -1#8 := by
      intro heq
      rw [heq] at hexp
      change 255 = _ at hexp
      omega
    have hzero : BitVec.ofNat 8 (q + 150).toNat ≠ 0#8 := by
      intro heq
      rw [heq] at hexp
      change 0 = _ at hexp
      omega
    have hmantissa : (1#1 ++ BitVec.ofNat 23 m).toNat = m := by
      rw [toNat_one_append, BitVec.toNat_ofNat]
      omega
    have hbias : ((q + 150).toNat : Int) - (Format.binary32.exponentBias +
        Format.binary32.mantissaBitsWithoutImplicit) = q := by
      change ((q + 150).toNat : Int) - (127 + 23) = q
      omega
    simp only [UnpackedFloat.unpack, unpackMantissa_packComponents, unpackExponent_packComponents,
      unpackSign_packComponents, Sign.ofBitVec_toBitVec, hones, hzero, if_false, hexp, hmantissa,
      hbias]
  · next hfirst =>
    obtain rfl := h.normal.resolve_right hfirst
    have hmantissa : (BitVec.ofNat 23 m).toNat = m := by
      rw [BitVec.toNat_ofNat]
      omega
    have hne : BitVec.ofNat 23 m ≠ 0#23 := by
      intro heq
      rw [heq] at hmantissa
      change 0 = _ at hmantissa
      exact h.pos.ne hmantissa
    simp only [UnpackedFloat.unpack, unpackMantissa_packComponents, unpackExponent_packComponents,
      unpackSign_packComponents, Sign.ofBitVec_toBitVec, hne, hmantissa]
    rfl

/-! ## What a pattern stands for -/

theorem toNat_unpackMantissa (b : BitVec 32) :
    (@unpackMantissa .binary32 b).toNat = b.toNat % 2 ^ 23 := by
  simp [unpackMantissa_def, BitVec.extractLsb'_toNat]

theorem toNat_unpackExponent (b : BitVec 32) :
    (@unpackExponent .binary32 b).toNat = b.toNat / 2 ^ 23 % 2 ^ 8 := by
  simp [unpackExponent_def, BitVec.extractLsb'_toNat, Nat.shiftRight_eq_div_pow]

theorem toNat_unpackSign (b : BitVec 32) : (@unpackSign .binary32 b).toNat = b.toNat / 2 ^ 31 := by
  have hb := b.isLt
  rw [unpackSign_def, BitVec.extractLsb'_toNat, Nat.shiftRight_eq_div_pow]
  exact Nat.mod_eq_of_lt (by norm_num; omega)

/-- The sign that the first bit tells, that of a zero too. -/
def sign (x : Float32) : Sign := if isNegative x then .negative else .positive

theorem ofBitVec_unpackSign (x : Float32) :
    Sign.ofBitVec (@unpackSign .binary32 x.toBits.toBitVec) = sign x := by
  have hbit := toNat_unpackSign x.toBits.toBitVec
  rw [UInt32.toNat_toBitVec] at hbit
  have hzero : @unpackSign .binary32 x.toBits.toBitVec = 0#1 ↔
      ¬ Nat.pow 2 31 ≤ x.toBits.toNat := by
    rw [← BitVec.toNat_inj, hbit, Nat.not_le]
    exact Nat.div_eq_zero_iff_lt (Nat.two_pow_pos 31)
  by_cases hneg : Nat.pow 2 31 ≤ x.toBits.toNat
  · rw [sign, isNegative, decide_eq_true hneg, Sign.ofBitVec, if_neg fun h => hzero.1 h hneg]
    rfl
  · rw [sign, isNegative, decide_eq_false hneg, Sign.ofBitVec, if_pos (hzero.2 hneg)]
    rfl

/-- A pattern is that of NaN, of an infinity, of a zero or of a canonical size. -/
inductive Shape (x : Float32) : Prop
  | notANumber (isNaN : x.isNaN) (eq : x = 0 / 0)
  | infinity (isNaN : x.isNaN = false) (isInf : x.isInf)
      (eq : x = .ofModel (.pack (.infinity (sign x))))
  | zero (isNaN : x.isNaN = false) (isInf : x.isInf = false) (significand : significand x = 0)
      (eq : x = .ofModel (.pack (.zero (sign x))))
  | finite (isNaN : x.isNaN = false) (isInf : x.isInf = false)
      (canonical : Canonical (significand x) (exponent x))
      (eq : x = .ofModel (.pack (.finite (sign x) (significand x) (exponent x) canonical.pos)))

theorem eq_pack_unpack (x : Float32) : x = .ofModel (.pack x.toModel.unpack) :=
  (Float32.ofBits_toBits x).symm

theorem Shape.of_unpack {x : Float32} (hm : Canonical m q)
    (hunpack : x.toModel.unpack = .finite (sign x) m q hm.pos) (hsignificand : significand x = m)
    (hexponent : exponent x = q) : Shape x := by
  have hpacked := eq_pack_unpack x
  have hnan : x.isNaN = x.toModel.unpack.isNaN := rfl
  have hinf : x.isInf = x.toModel.unpack.isInf := rfl
  subst hsignificand hexponent
  rw [hunpack] at hpacked hnan hinf
  exact .finite hnan hinf hm hpacked

/-- The least biased exponent stands for numbers without the first digit. -/
theorem size_of_least {x : Float32} (h : @unpackExponent .binary32 x.toBits.toBitVec = 0#8) :
    significand x = (@unpackMantissa .binary32 x.toBits.toBitVec).toNat ∧ exponent x = -149 := by
  have hexp := toNat_unpackExponent x.toBits.toBitVec
  rw [h, UInt32.toNat_toBitVec] at hexp
  rw [toNat_unpackMantissa, UInt32.toNat_toBitVec]
  exact ⟨if_pos hexp.symm, if_pos hexp.symm⟩

theorem size_of_ne_least {x : Float32} (h : @unpackExponent .binary32 x.toBits.toBitVec ≠ 0#8) :
    significand x = (@unpackMantissa .binary32 x.toBits.toBitVec).toNat + 2 ^ 23 ∧
      exponent x = ((@unpackExponent .binary32 x.toBits.toBitVec).toNat : Int) - 150 := by
  have hne : x.toBits.toNat / 2 ^ 23 % 2 ^ 8 ≠ 0 := by
    intro hzero
    rw [← UInt32.toNat_toBitVec, ← toNat_unpackExponent] at hzero
    exact h (BitVec.eq_of_toNat_eq hzero)
  rw [toNat_unpackMantissa, toNat_unpackExponent, UInt32.toNat_toBitVec]
  exact ⟨if_neg hne, if_neg hne⟩

theorem shape (x : Float32) : Shape x := by
  have hpacked := eq_pack_unpack x
  have hnan : x.isNaN = x.toModel.unpack.isNaN := rfl
  have hinf : x.isInf = x.toModel.unpack.isInf := rfl
  have hunpack : x.toModel.unpack = UnpackedFloat.unpack .binary32 x.toBits.toBitVec := rfl
  have hexp := (@unpackExponent .binary32 x.toBits.toBitVec).isLt
  have hman := (@unpackMantissa .binary32 x.toBits.toBitVec).isLt
  change _ < 2 ^ 8 at hexp
  change _ < 2 ^ 23 at hman
  simp only [UnpackedFloat.unpack, ofBitVec_unpackSign] at hunpack
  split at hunpack
  · split at hunpack
    · rw [hunpack] at hnan hinf hpacked
      exact .infinity hnan hinf hpacked
    · rw [hunpack] at hnan hpacked
      exact .notANumber hnan hpacked
  · next hones =>
    have hexp255 : (@unpackExponent .binary32 x.toBits.toBitVec).toNat ≠ 255 :=
      fun heq => hones (BitVec.eq_of_toNat_eq heq)
    split at hunpack
    · next hleast =>
      obtain ⟨hsignificand, hexponent⟩ := size_of_least hleast
      split at hunpack
      · next hzero =>
        rw [hunpack] at hnan hinf hpacked
        rw [hzero] at hsignificand
        exact .zero hnan hinf hsignificand hpacked
      · next hzero =>
        have hpos : 0 < (@unpackMantissa .binary32 x.toBits.toBitVec).toNat :=
          Nat.pos_of_ne_zero fun heq => hzero (BitVec.eq_of_toNat_eq heq)
        rw [hleast] at hunpack
        have hm : Canonical (@unpackMantissa .binary32 x.toBits.toBitVec).toNat (-149) := by
          constructor <;> omega
        exact .of_unpack hm hunpack hsignificand hexponent
    · next hnormal =>
      obtain ⟨hsignificand, hexponent⟩ := size_of_ne_least hnormal
      have hfirst := toNat_one_append (@unpackMantissa .binary32 x.toBits.toBitVec)
      have hexp0 : (@unpackExponent .binary32 x.toBits.toBitVec).toNat ≠ 0 :=
        fun heq => hnormal (BitVec.eq_of_toNat_eq heq)
      have hm : Canonical (1#1 ++ @unpackMantissa .binary32 x.toBits.toBitVec).toNat
          ((@unpackExponent .binary32 x.toBits.toBitVec).toNat - 150) := by
        rw [hfirst]
        constructor <;> omega
      exact .of_unpack hm hunpack (hsignificand.trans hfirst.symm) hexponent

end Binary32

end DrawGraph
