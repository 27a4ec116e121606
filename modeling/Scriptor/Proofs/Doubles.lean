import Mathlib.Tactic.Linarith

namespace Scriptor.Number

open Float.Model Float.Model.UnpackedFloat

section Fields

inductive Unpacks (b : BitVec Format.binary64.numBits) : UnpackedFloat → Prop where
  | infinity : unpackExponent b = -1#11 → unpackMantissa b = 0#52 →
      Unpacks b (.infinity (.ofBitVec (unpackSign b)))
  | notANumber : unpackExponent b = -1#11 → unpackMantissa b ≠ 0#52 → Unpacks b .notANumber
  | zero : unpackExponent b = 0#11 → unpackMantissa b = 0#52 →
      Unpacks b (.zero (.ofBitVec (unpackSign b)))
  | subnormal (h : 0 < (unpackMantissa b).toNat) : unpackExponent b = 0#11 →
      Unpacks b (.finite (.ofBitVec (unpackSign b)) (unpackMantissa b).toNat (-1074) h)
  | normal (h : 0 < (1#1 ++ unpackMantissa b).toNat) : 0 < (unpackExponent b).toNat →
      (unpackExponent b).toNat < 2047 →
      Unpacks b (.finite (.ofBitVec (unpackSign b)) (1#1 ++ unpackMantissa b).toNat
        ((unpackExponent b).toNat - 1075) h)

variable {b : BitVec Format.binary64.numBits} {m : BitVec 52} {u : UnpackedFloat}

theorem toNat_pos_of_ne {n : Nat} {v : BitVec n} (h : v ≠ 0#n) : 0 < v.toNat := by
  by_contra hle
  apply h
  apply BitVec.eq_of_toNat_eq
  rw [BitVec.toNat_zero]
  omega

theorem toNat_lt_of_ne {v : BitVec 11} (h : v ≠ -1#11) : v.toNat < 2047 := by
  have hlt := v.isLt
  by_contra hge
  apply h
  apply BitVec.eq_of_toNat_eq
  simp only [BitVec.neg_one_eq_allOnes, BitVec.toNat_allOnes]
  omega

theorem toNat_implicit (m : BitVec 52) : (1#1 ++ m).toNat = 2 ^ 52 + m.toNat := by
  rw [BitVec.toNat_append, ← Nat.shiftLeft_add_eq_or_of_lt m.isLt]
  rfl

theorem log2_implicit (m : BitVec 52) : (1#1 ++ m).toNat.log2 = 52 := by
  have hm := m.isLt
  rw [toNat_implicit, Nat.log2_eq_iff (by omega)]
  omega

theorem ofNat_implicit (m : BitVec 52) : BitVec.ofNat 52 (1#1 ++ m).toNat = m := by
  have hm := m.isLt
  apply BitVec.eq_of_toNat_eq
  rw [toNat_implicit, BitVec.toNat_ofNat]
  omega

theorem log2_lt (h : 0 < m.toNat) : m.toNat.log2 < 52 :=
  (Nat.log2_lt h.ne').2 m.isLt

theorem unpack_unpacks (b : BitVec Format.binary64.numBits) :
    Unpacks b (UnpackedFloat.unpack Format.binary64 b) := by
  delta UnpackedFloat.unpack
  by_cases hones : unpackExponent b = -1#11
  · rw [if_pos hones]
    by_cases hm : unpackMantissa b = 0#52
    · rw [if_pos hm]
      exact .infinity hones hm
    · rw [if_neg hm]
      exact .notANumber hones hm
  · rw [if_neg hones]
    by_cases hzero : unpackExponent b = 0#11
    · rw [if_pos hzero]
      by_cases hm : unpackMantissa b = 0#52
      · rw [dif_pos hm]
        exact .zero hzero hm
      · have hexponent : ((unpackExponent b).toNat - ((1023 : Nat) + (52 : Nat)) + 1 : Int) =
            -1074 := by
          rw [hzero]
          rfl
        rw [dif_neg hm]
        change Unpacks b
          (.finite _ _ ((unpackExponent b).toNat - ((1023 : Nat) + (52 : Nat)) + 1) _)
        rw [hexponent]
        exact .subnormal (toNat_pos_of_ne hm) hzero
    · rw [if_neg hzero]
      have hpos : 0 < (1#1 ++ unpackMantissa b).toNat := by
        rw [toNat_implicit]
        omega
      exact .normal hpos (toNat_pos_of_ne hzero) (toNat_lt_of_ne hones)

theorem toBitVec_ofBitVec (v : BitVec 1) : (Sign.ofBitVec v).toBitVec = v := by
  revert v
  decide

theorem packComponents_unpack (b : BitVec Format.binary64.numBits) :
    packComponents Format.binary64 (.ofBitVec (unpackSign b)) (unpackExponent b)
      (unpackMantissa b) = b := by
  rw [packComponents, toBitVec_ofBitVec]
  change b.extractLsb' 63 1 ++ b.extractLsb' 52 11 ++ b.extractLsb' 0 52 = b
  have hhigh : b.extractLsb' 63 1 ++ b.extractLsb' 52 11 = b.extractLsb' 52 12 :=
    BitVec.extractLsb'_append_extractLsb'_eq_extractLsb' rfl
  have hall : b.extractLsb' 52 12 ++ b.extractLsb' 0 52 = b.extractLsb' 0 64 :=
    BitVec.extractLsb'_append_extractLsb'_eq_extractLsb' rfl
  rw [hhigh, hall]
  exact BitVec.extractLsb'_eq_self

/-- A finite number that is in range keeps its mantissa; the leading bit only decides about the
exponent. -/
theorem pack_finite {s : Sign} {n : Nat} {e : Int} {h : 0 < n} {biased : Nat}
    (hb : e + 1075 = biased) (hlt : biased < 2047) :
    UnpackedFloat.pack Format.binary64 (.finite s n e h) =
      packComponents Format.binary64 s (if n.log2 = 52 then BitVec.ofNat 11 biased else 0#11)
        (BitVec.ofNat 52 n) := by
  have hbias :
      (e + Format.binary64.exponentBias + Format.binary64.mantissaBitsWithoutImplicit).toNat =
      biased := by
    change (e + (1023 : Nat) + (52 : Nat)).toNat = biased
    omega
  have hbits : n.log2 + 1 = Format.binary64.mantissaBits ↔ n.log2 = 52 := by
    change n.log2 + 1 = 53 ↔ n.log2 = 52
    omega
  have hfits : ¬2 ^ Format.binary64.exponentBits ≤ biased + 1 := by
    change ¬2048 ≤ biased + 1
    omega
  delta UnpackedFloat.pack
  dsimp only
  rw [hbias, if_neg hfits]
  by_cases hlong : n.log2 = 52
  · rw [if_pos (hbits.2 hlong), if_pos hlong]
  · rw [if_neg (mt hbits.1 hlong), if_neg hlong]

theorem Unpacks.pack (hu : Unpacks b u) (h : Format.binary64.Valid b) :
    UnpackedFloat.pack Format.binary64 u = b := by
  have hfields := packComponents_unpack b
  cases hu with
  | infinity he hm =>
    rw [he, hm] at hfields
    exact hfields
  | notANumber he hm => exact (h.eq_packedNaN he hm).symm
  | zero he hm =>
    rw [he, hm] at hfields
    exact hfields
  | subnormal hpos he =>
    have hbiased : (-1074 : Int) + 1075 = (1 : Nat) := rfl
    rw [pack_finite hbiased (by omega), if_neg (log2_lt hpos).ne, BitVec.ofNat_toNat,
      BitVec.setWidth_eq]
    rw [he] at hfields
    exact hfields
  | normal _ hpos hlt =>
    rw [pack_finite (Int.sub_add_cancel _ _) hlt, if_pos (log2_implicit _), ofNat_implicit,
      BitVec.ofNat_toNat, BitVec.setWidth_eq]
    exact hfields

/-- The exponent of a finite number is the least one, or the mantissa is as long as it can be. -/
theorem Unpacks.canonical {s : Sign} {n : Nat} {e : Int} {h : 0 < n}
    (hu : Unpacks b (.finite s n e h)) :
    n.log2 = 52 ∧ -1074 ≤ e ∨ n.log2 < 52 ∧ e = -1074 := by
  cases hu with
  | subnormal hpos _ => exact .inr ⟨log2_lt hpos, rfl⟩
  | normal _ hpos _ => exact .inl ⟨log2_implicit _, by omega⟩

end Fields

def parts (x : Float) : UnpackedFloat := x.toModel.unpack

def ofParts (u : UnpackedFloat) : Float := .ofModel (.pack u)

theorem ofParts_parts (x : Float) : ofParts (parts x) = x := by
  obtain ⟨bits, hvalid⟩ := x
  have hpack := (unpack_unpacks bits.toBitVec).pack hvalid
  have hmk {v : BitVec 64} (hv : Format.binary64.Valid v) (h : v = bits.toBitVec) :
      Float.ofModel ⟨⟨v⟩, hv⟩ = Float.ofModel ⟨bits, hvalid⟩ := by
    subst h
    rfl
  exact hmk _ hpack

theorem parts_injective : Function.Injective parts :=
  Function.LeftInverse.injective ofParts_parts

theorem parts_one : parts 1 = .finite .positive (2 ^ 52) (-52) (by decide) := rfl

section Rules

def Alike (u v : UnpackedFloat) : Prop :=
  u = v ∨ (∃ s, u = .zero s) ∧ ∃ s, v = .zero s

variable {u : UnpackedFloat} (s : Sign)

theorem zero_neutral_alike (u : UnpackedFloat) :
    Alike (UnpackedFloat.add Format.binary64 u (.zero s)) u ∧
      Alike (UnpackedFloat.add Format.binary64 (.zero s) u) u ∧
      Alike (UnpackedFloat.sub Format.binary64 u (.zero s)) u ∧
      Alike (UnpackedFloat.sub Format.binary64 (.zero s) u) u.neg := by
  cases u with
  | zero t =>
    cases s <;> cases t
      <;> exact ⟨.inr ⟨⟨_, rfl⟩, _, rfl⟩, .inr ⟨⟨_, rfl⟩, _, rfl⟩,
        .inr ⟨⟨_, rfl⟩, _, rfl⟩, .inr ⟨⟨_, rfl⟩, _, rfl⟩⟩
  | _ => exact ⟨.inl rfl, .inl rfl, .inl rfl, .inl rfl⟩

/-- Shifting out zeros leaves nothing to round. -/
theorem shiftRight_exact (m k : Nat) :
    ExtendedMantissa.mk (m * 2 ^ k) false false >>> k = ExtendedMantissa.mk m false false := by
  induction k generalizing m with
  | zero => simp [HShiftRight.hShiftRight, Nat.repeat]
  | succ k ih =>
    change ExtendedMantissa.shiftRightOne
      (ExtendedMantissa.mk (m * 2 ^ (k + 1)) false false >>> k) = _
    rw [Nat.pow_succ', ← Nat.mul_assoc, ih]
    simp [ExtendedMantissa.shiftRightOne]

theorem log2_mul_two_pow {m : Nat} (h : 0 < m) (k : Nat) : (m * 2 ^ k).log2 = m.log2 + k := by
  rw [Nat.log2_eq_iff (by positivity)]
  obtain ⟨hle, hlt⟩ := (Nat.log2_eq_iff h.ne').1 rfl
  rw [Nat.pow_add, Nat.add_right_comm, Nat.pow_add]
  exact ⟨Nat.mul_le_mul_right _ hle, Nat.mul_lt_mul_of_pos_right hlt (Nat.two_pow_pos k)⟩

/-- A mantissa that is too long only by zeros is cut back without rounding. -/
theorem round_exact {m : Nat} {e : Int} (h : 0 < m) (k : Nat)
    (hc : m.log2 = 52 ∧ -1074 ≤ e ∨ m.log2 < 52 ∧ e = -1074) :
    roundWithAccuracy Format.binary64 s (m * 2 ^ k) (e - k) .exact = .finite s m e h := by
  have hshift (i : Nat) : shiftToTargetExponent Format.binary64 (m * 2 ^ i) (e - i) .exact =
      (⟨m, false, false⟩, e) := by
    have htarget : Format.binary64.targetExponent (totalExponent (m * 2 ^ i) (e - i)) = e := by
      change max (((m * 2 ^ i).log2 : Int) + 1 + (e - i) - 53) (-1074) = e
      rw [log2_mul_two_pow h]
      omega
    have hamount : (e - (e - i)).toNat = i := by omega
    rw [shiftToTargetExponent, htarget, shiftToExponent, hamount]
    exact Prod.ext (shiftRight_exact m i) (Int.sub_add_cancel _ _)
  have hagain := hshift 0
  rw [Nat.pow_zero, Nat.mul_one, Int.natCast_zero, Int.sub_zero] at hagain
  have hrounded : ExtendedMantissa.roundedMantissa ⟨m, false, false⟩ = m := rfl
  rw [roundWithAccuracy, hshift k]
  dsimp only
  rw [hrounded, hagain]
  exact dif_neg h.ne'

end Rules

/-- Whether two numbers are the same, where a zero has no sign. -/
def Same (x y : Float) : Prop :=
  x = y ∨ (x == 0) = true ∧ (y == 0) = true

section Laws

variable {x y z : Float}

theorem beq_zero_iff : (x == 0) = true ↔ ∃ s, parts x = .zero s := by
  change ((parts x).compare (.zero .positive) == some .eq) = true ↔ _
  cases parts x with
  | zero s => exact iff_of_true rfl ⟨s, rfl⟩
  | notANumber =>
    refine iff_of_false Bool.false_ne_true ?_
    rintro ⟨s, ⟨⟩⟩
  | infinity s | finite s =>
    refine iff_of_false ?_ ?_
    · cases s <;> exact Bool.false_ne_true
    · rintro ⟨t, ⟨⟩⟩

theorem isFinite_of_beq_zero (h : (x == 0) = true) : x.isFinite = true := by
  obtain ⟨s, hs⟩ := beq_zero_iff.1 h
  change (parts x).isFinite = true
  rw [hs]
  rfl

theorem eq_one_of_beq (h : (x == 1) = true) : x = 1 := by
  apply parts_injective
  change ((parts x).compare (parts 1) == some .eq) = true at h
  rw [parts_one] at h ⊢
  cases hx : parts x with
  | notANumber | zero =>
    rw [hx] at h
    cases h
  | infinity s =>
    rw [hx] at h
    cases s <;> cases h
  | finite s m e hm =>
    rw [hx] at h
    cases s with
    | negative => cases h
    | positive =>
      have hthen := Option.some.inj (eq_of_beq h)
      obtain ⟨he, hm⟩ := Ordering.then_eq_eq.1 hthen
      cases compare_eq_iff_eq.1 he
      cases compare_eq_iff_eq.1 hm
      rfl

theorem ofParts_zero_beq (s : Sign) : (ofParts (.zero s) == 0) = true := by
  cases s <;> rfl

theorem Alike.same {u v : UnpackedFloat} (h : Alike u v) : Same (ofParts u) (ofParts v) := by
  rcases h with rfl | ⟨⟨s, rfl⟩, t, rfl⟩
  · exact .inl rfl
  · exact .inr ⟨ofParts_zero_beq s, ofParts_zero_beq t⟩

/-- Zero is neutral, up to the sign of a zero. -/
theorem zero_neutral (x : Float) (h : (z == 0) = true) :
    Same (x + z) x ∧ Same (z + x) x ∧ Same (x - z) x ∧ Same (z - x) (-x) := by
  obtain ⟨s, hs⟩ := beq_zero_iff.1 h
  obtain ⟨hright, hleft, hminus, hneg⟩ := zero_neutral_alike s (parts x)
  rw [← hs] at hright hleft hminus hneg
  have hright := hright.same
  have hleft := hleft.same
  have hminus := hminus.same
  rw [ofParts_parts] at hright hleft hminus
  exact ⟨hright, hleft, hminus, hneg.same⟩

theorem same_zero_iff (h : (z == 0) = true) : Same x z ↔ (x == 0) = true := by
  constructor
  · rintro (rfl | ⟨hx, -⟩)
    · exact h
    · exact hx
  · exact fun hx => .inr ⟨hx, h⟩

/-- Only a finite number times zero is zero. -/
theorem mul_zero_same_iff (x : Float) (h : (z == 0) = true) :
    (Same (x * z) z ↔ x.isFinite = true) ∧ (Same (z * x) z ↔ x.isFinite = true) := by
  obtain ⟨s, hs⟩ := beq_zero_iff.1 h
  rw [same_zero_iff h, same_zero_iff h]
  change ((ofParts (UnpackedFloat.mul Format.binary64 (parts x) (parts z)) == 0) = true ↔
    (parts x).isFinite = true) ∧
    ((ofParts (UnpackedFloat.mul Format.binary64 (parts z) (parts x)) == 0) = true ↔
      (parts x).isFinite = true)
  rw [hs]
  cases parts x with
  | zero | finite =>
    exact ⟨iff_of_true (ofParts_zero_beq _) rfl, iff_of_true (ofParts_zero_beq _) rfl⟩
  | infinity | notANumber =>
    have hnan : ¬(ofParts .notANumber == 0) = true := by decide
    exact ⟨iff_of_false hnan nofun, iff_of_false hnan nofun⟩

theorem one_neutral (x : Float) : x * 1 = x ∧ 1 * x = x := by
  suffices h : UnpackedFloat.mul Format.binary64 (parts x) (parts 1) = parts x ∧
      UnpackedFloat.mul Format.binary64 (parts 1) (parts x) = parts x by
    have hright := congrArg ofParts h.1
    have hleft := congrArg ofParts h.2
    rw [ofParts_parts] at hright hleft
    exact ⟨hright, hleft⟩
  rw [parts_one]
  cases hx : parts x with
  | notANumber => exact ⟨rfl, rfl⟩
  | infinity s | zero s => cases s <;> exact ⟨rfl, rfl⟩
  | finite s m e h =>
    have hu := unpack_unpacks x.toModel.toBits.toBitVec
    change Unpacks _ (parts x) at hu
    rw [hx] at hu
    have hround := round_exact s h 52 hu.canonical
    have hswapped : roundWithAccuracy Format.binary64 s (2 ^ 52 * m) (-52 + e) .exact =
        .finite s m e h := by
      rw [Nat.mul_comm, Int.add_comm]
      exact hround
    constructor
    · cases s <;> exact hround
    · cases s <;> exact hswapped

end Laws

end Scriptor.Number
