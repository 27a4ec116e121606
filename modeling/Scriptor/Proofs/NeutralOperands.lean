import Scriptor.Proofs.Coercion

namespace Scriptor

theorem Number.Same.symm {x y : Float} (h : Same x y) : Same y x :=
  h.imp Eq.symm And.symm

theorem Number.Same.trans {x y z : Float} (h : Same x y) (h' : Same y z) : Same x z := by
  rcases h with rfl | ⟨hx, hy⟩
  · exact h'
  · rcases h' with rfl | ⟨-, hz⟩
    · exact .inr ⟨hx, hy⟩
    · exact .inr ⟨hx, hz⟩

theorem Number.Same.neg {x y : Float} (h : Same x y) : Same (-x) (-y) := by
  rcases h with rfl | ⟨hx, hy⟩
  · exact .inl rfl
  · have hzero {z : Float} (hz : (z == 0) = true) : (-z == 0) = true := by
      obtain ⟨-, -, hsame, hneg⟩ := zero_neutral z hz
      exact (same_zero_iff hz).1 (hneg.symm.trans hsame)
    exact .inr ⟨hzero hx, hzero hy⟩

namespace Script

def Value.Same (v w : Value) : Prop :=
  v = w ∨ ∃ x y, v = .number x ∧ w = .number y ∧ Number.Same x y

namespace Value.Same

variable {u v w : Value} {x y : Float}

theorem symm (h : Same v w) : Same w v :=
  h.imp Eq.symm fun ⟨x, y, hv, hw, hxy⟩ => ⟨y, x, hw, hv, hxy.symm⟩

theorem trans (h : Same u v) (h' : Same v w) : Same u w := by
  rcases h with rfl | ⟨x, y, rfl, rfl, hxy⟩
  · exact h'
  · rcases h' with rfl | ⟨_, z, ⟨⟩, rfl, hyz⟩
    · exact .inr ⟨x, y, rfl, rfl, hxy⟩
    · exact .inr ⟨x, z, rfl, rfl, hxy.trans hyz⟩

theorem exists_number (h : Same v (.number y)) : ∃ x, v = .number x ∧ Number.Same x y := by
  rcases h with rfl | ⟨x, _, rfl, ⟨⟩, hxy⟩
  · exact ⟨y, rfl, .inl rfl⟩
  · exact ⟨x, rfl, hxy⟩

theorem eq_of_ne_number (h : Same v w) (hw : ∀ y, w ≠ .number y) : v = w := by
  rcases h with rfl | ⟨_, y, -, rfl, -⟩
  · rfl
  · exact absurd rfl (hw y)

end Value.Same

/-- Whether two evaluations come to the same: both fail, or both yield the same value. -/
def Coincide (v? w? : Option Value) : Prop := Option.Rel Value.Same v? w?

namespace Coincide

variable {u? v? w? : Option Value} {v w : Value} {x y : Float}

theorem refl (v? : Option Value) : Coincide v? v? := by
  cases v? with
  | none => exact .none
  | some v => exact .some (.inl rfl)

theorem symm (h : Coincide v? w?) : Coincide w? v? := by
  cases h with
  | none => exact .none
  | some h => exact .some h.symm

theorem trans (h : Coincide u? v?) (h' : Coincide v? w?) : Coincide u? w? := by
  cases h with
  | none => exact h'
  | some h =>
    cases h' with
    | some h' => exact .some (h.trans h')

theorem right_iff (h : Coincide v? w?) : Coincide u? w? ↔ Coincide u? v? :=
  ⟨fun h' => h'.trans h.symm, fun h' => h'.trans h⟩

theorem some_iff : Coincide (some v) (some w) ↔ v.Same w :=
  ⟨fun | .some h => h, .some⟩

theorem not_none_some : ¬Coincide none (some v) := nofun

theorem number_iff : Coincide (some (.number x)) (some (.number y)) ↔ Number.Same x y := by
  rw [some_iff]
  constructor
  · intro h
    obtain ⟨_, ⟨⟩, h⟩ := h.exists_number
    exact h
  · exact fun h => .inr ⟨x, y, rfl, rfl, h⟩

theorem eq_number (h : Coincide v? (some (.number y))) :
    ∃ x, v? = some (.number x) ∧ Number.Same x y := by
  cases h with
  | some h =>
    obtain ⟨x, rfl, hxy⟩ := h.exists_number
    exact ⟨x, rfl, hxy⟩

theorem eq_bool {b : Bool} (h : Coincide v? (some (.bool b))) : v? = some (.bool b) := by
  cases h with
  | some h => exact congrArg some (h.eq_of_ne_number nofun)

theorem bind_iff {f g : Value → Option Value} :
    Coincide (v?.bind f) (v?.bind g) ↔ ∀ v, v? = some v → Coincide (f v) (g v) := by
  cases v? with
  | none => exact iff_of_true .none nofun
  | some v =>
    refine ⟨fun h w hw => ?_, fun h => h v rfl⟩
    cases hw
    exact h

theorem bind_self_iff {f : Value → Option Value} :
    Coincide (v?.bind f) v? ↔ ∀ v, v? = some v → Coincide (f v) (some v) := by
  have h : Coincide (v?.bind f) (v?.bind some) ↔ _ := bind_iff
  rwa [Option.bind_fun_some] at h

/-- A choice that yields a truth value where the value is as good as it changes nothing else. -/
theorem choice_iff {f : Value → Option Value} {b : Bool}
    (hf : ∀ v, f v = if v.isTruthy = b then some (.bool b) else some v) :
    Coincide (v?.bind f) v? ↔ ∀ v, v? = some v → v.isTruthy = b → v = .bool b := by
  refine bind_self_iff.trans (forall₂_congr fun v _ => ?_)
  rw [hf]
  split
  next ht =>
    refine ⟨fun h _ => (some_iff.1 h).symm.eq_of_ne_number nofun, fun h => ?_⟩
    rw [h ht]
    exact .refl _
  next ht => exact iff_of_true (.refl _) fun h => absurd h ht

theorem negate (ε : Engine) (h : Coincide v? w?) :
    Coincide (v?.bind (ε.unary? .negate)) (w?.bind (ε.unary? .negate)) := by
  cases h with
  | none => exact .none
  | some h =>
    rcases h with rfl | ⟨x, y, rfl, rfl, hxy⟩
    · exact .refl _
    · exact number_iff.2 hxy.neg

end Coincide

namespace Engine

variable {ε : Engine} {op : BinaryOp} {v : Value} {z : Float}

/-- Beside a number, arithmetic yields the value that it is done on only if that is a number. -/
theorem number_of_arithmetic? {m n : Numeric}
    (hmn : (∃ x, m = .number x) ∨ ∃ y, n = .number y)
    (h : Coincide (ε.arithmetic? op m n) (some v)) : ∃ x, v = .number x := by
  cases m with
  | number x =>
    cases n with
    | number y =>
      rw [arithmetic?] at h
      cases hr : ε.numberArithmetic? op x y with
      | none =>
        rw [hr] at h
        cases h
      | some r =>
        rw [hr] at h
        obtain ⟨y, hy, -⟩ := h.symm.eq_number
        exact ⟨y, Option.some.inj hy⟩
    | integer n => cases h
  | integer m =>
    cases n with
    | number y => cases h
    | integer n => rcases hmn with ⟨_, ⟨⟩⟩ | ⟨_, ⟨⟩⟩

variable {g : Numeric → Option Value}

theorem number_of_bind {m? : Option Numeric}
    (hg : ∀ m v, Coincide (g m) (some v) → ∃ x, v = .number x)
    (h : Coincide (m?.bind g) (some v)) : ∃ x, v = .number x := by
  cases m? with
  | none => cases h
  | some m => exact hg m v h

/-- What is not a number does not come back from a sum with one: a text gets longer. -/
theorem number_of_sum {f : Primitive → Option Value}
    (htext : ∀ s, ∃ t, f (.string s) = some (.string t) ∧ t ≠ s)
    (hf : ∀ p, p.isString = false → f p = (ε.toNumeric? p).bind g)
    (hg : ∀ m v, Coincide (g m) (some v) → ∃ x, v = .number x)
    (h : Coincide ((ε.toPrimitive? .sum v).bind f) (some v)) : ∃ x, v = .number x := by
  cases hp : ε.toPrimitive? .sum v with
  | none =>
    rw [hp] at h
    cases h
  | some p =>
    rw [hp, Option.bind_some] at h
    cases p with
    | string s =>
      obtain ⟨t, hft, ht⟩ := htext s
      rw [hft] at h
      have hv : v = .string t := (Coincide.some_iff.1 h).symm.eq_of_ne_number nofun
      rw [hv] at hp
      exact absurd (Primitive.string.inj (Option.some.inj hp)) ht
    | _ =>
      rw [hf _ rfl] at h
      exact number_of_bind hg h

variable (ε)

theorem converts_iff {f : Float → Float} {y : Float}
    (hnumber : ∀ x, g (.number x) = some (.number (f x)))
    (hinteger : ∀ n, g (.integer n) = none) :
    Coincide ((ε.numeric? v).bind g) (some (.number y)) ↔
      ∃ x, ε.numeric? v = some (.number x) ∧ Number.Same (f x) y := by
  cases hv : ε.numeric? v with
  | none => exact iff_of_false Coincide.not_none_some nofun
  | some m =>
    rw [Option.bind_some]
    cases m with
    | number x =>
      rw [hnumber, Coincide.number_iff]
      simp
    | integer n =>
      rw [hinteger]
      exact iff_of_false Coincide.not_none_some nofun

section Neutral

variable (hz : (z == 0) = true)
include hz

theorem add_zero_iff (ht : ε.text z ≠ "") :
    Coincide (ε.strict? .add v (.number z)) (some v) ↔ ∃ x, v = .number x := by
  constructor
  · refine number_of_sum (f := fun p => ε.sum? p (.number z))
      (g := fun m => ε.arithmetic? .add m (.number z)) ?_ ?_
      fun m _ => number_of_arithmetic? (.inr ⟨z, rfl⟩)
    · intro s
      refine ⟨s ++ ε.text z, rfl, ?_⟩
      simpa using ht
    · intro p hp
      rw [sum?, hp]
      rfl
  · rintro ⟨x, rfl⟩
    exact Coincide.number_iff.2 (Number.zero_neutral x hz).1

theorem zero_add_iff (ht : ε.text z ≠ "") :
    Coincide (ε.strict? .add (.number z) v) (some v) ↔ ∃ x, v = .number x := by
  constructor
  · refine number_of_sum (f := ε.sum? (.number z)) (g := ε.arithmetic? .add (.number z)) ?_ ?_
      fun n _ => number_of_arithmetic? (.inl ⟨z, rfl⟩)
    · intro s
      refine ⟨ε.text z ++ s, rfl, ?_⟩
      simpa using ht
    · intro p hp
      cases p with
      | string => cases hp
      | _ => rfl
  · rintro ⟨x, rfl⟩
    exact Coincide.number_iff.2 (Number.zero_neutral x hz).2.1

theorem subtract_zero_iff :
    Coincide (ε.strict? .subtract v (.number z)) (some v) ↔ ∃ x, v = .number x := by
  constructor
  · exact number_of_bind fun m _ => number_of_arithmetic? (.inr ⟨z, rfl⟩)
  · rintro ⟨x, rfl⟩
    exact Coincide.number_iff.2 (Number.zero_neutral x hz).2.2.1

/-- Only exact integers are not taken from zero. -/
theorem zero_subtract_iff :
    Coincide (ε.strict? .subtract (.number z) v) (ε.unary? .negate v) ↔
      ∀ n, ε.numeric? v ≠ some (.integer n) := by
  have hstrict : ε.strict? .subtract (.number z) v =
      (ε.numeric? v).bind fun n => ε.arithmetic? .subtract (.number z) n := rfl
  rw [hstrict, unary?]
  cases hv : ε.numeric? v with
  | none => exact iff_of_true .none fun n => nofun
  | some m =>
    cases m with
    | number x =>
      exact iff_of_true (Coincide.number_iff.2 (Number.zero_neutral x hz).2.2.2) fun n => nofun
    | integer n => exact iff_of_false Coincide.not_none_some fun h => h n rfl

/-- A product with zero is zero for what converts to a finite number. -/
theorem multiply_zero_iff :
    Coincide (ε.strict? .multiply v (.number z)) (some (.number z)) ↔
      ∃ x, ε.numeric? v = some (.number x) ∧ x.isFinite = true := by
  refine (ε.converts_iff (g := fun m => ε.arithmetic? .multiply m (.number z)) (fun _ => rfl)
    fun _ => rfl).trans ?_
  simp only [(Number.mul_zero_same_iff _ hz).1]

theorem zero_multiply_iff :
    Coincide (ε.strict? .multiply (.number z) v) (some (.number z)) ↔
      ∃ x, ε.numeric? v = some (.number x) ∧ x.isFinite = true := by
  refine (ε.converts_iff (g := ε.arithmetic? .multiply (.number z)) (fun _ => rfl)
    fun _ => rfl).trans ?_
  simp only [(Number.mul_zero_same_iff _ hz).2]

theorem power_zero_iff :
    Coincide (ε.strict? .power v (.number z)) (some (.number 1)) ↔
      ∃ x, ε.numeric? v = some (.number x) := by
  refine (ε.converts_iff (g := fun m => ε.arithmetic? .power m (.number z)) (fun _ => rfl)
    fun _ => rfl).trans ?_
  simp only [ε.power_zero _ hz, Number.Same, true_or, and_true]

end Neutral

theorem multiply_one_iff :
    Coincide (ε.strict? .multiply v (.number 1)) (some v) ↔ ∃ x, v = .number x := by
  constructor
  · exact number_of_bind fun m _ => number_of_arithmetic? (.inr ⟨1, rfl⟩)
  · rintro ⟨x, rfl⟩
    exact Coincide.number_iff.2 (.inl (Number.one_neutral x).1)

theorem one_multiply_iff :
    Coincide (ε.strict? .multiply (.number 1) v) (some v) ↔ ∃ x, v = .number x := by
  constructor
  · exact number_of_bind fun n _ => number_of_arithmetic? (.inl ⟨1, rfl⟩)
  · rintro ⟨x, rfl⟩
    exact Coincide.number_iff.2 (.inl (Number.one_neutral x).2)

theorem one_power_iff :
    Coincide (ε.strict? .power (.number 1) v) (some (.number 1)) ↔
      ∃ y, ε.numeric? v = some (.number y) ∧ y.isFinite = true := by
  refine (ε.converts_iff (g := ε.arithmetic? .power (.number 1)) (fun _ => rfl)
    fun _ => rfl).trans ?_
  simp only [ε.power_one_same_iff]

end Engine
end Script

end Scriptor
