import LiveTest.Rust.Panic

/-!
# Arithmetic that overflows

A build with overflow checks (the debug build) panics where an operation on an
integer overflows, one without them (the release build) wraps. `usize` has 64
bits here.

`Refines` relates the two: a computation of the checked build comes to the
result of the other build, or panics.
-/

namespace Rust

/-- What an overflow does. -/
inductive Overflow where
  | panics
  | wraps
  deriving DecidableEq, Repr

/-- The `u64` product is the product. -/
def MulFits (a b : UInt64) : Prop := a.toNat * b.toNat < 2 ^ 64

/-- The `i64` difference is the difference. -/
def SubFits (a b : Int64) : Prop := (a - b).toInt = a.toInt - b.toInt

instance (a b : UInt64) : Decidable (MulFits a b) := inferInstanceAs (Decidable (_ < _))

instance (a b : Int64) : Decidable (SubFits a b) := inferInstanceAs (Decidable (_ = _))

namespace Overflow

/-- An operation with the wrapped result `r`, when it does not overflow exactly if `fits`. -/
def check {α : Type} (o : Overflow) (fits : Prop) [Decidable fits] (p : Panic) (r : α) :
    Except Panic α :=
  match o with
  | .panics => if fits then .ok r else .error p
  | .wraps => .ok r

/-- `a + b` on `u64`. -/
def add (o : Overflow) (a b : UInt64) : Except Panic UInt64 :=
  o.check (a.toNat + b.toNat < 2 ^ 64) .addOverflow (a + b)

/-- `a * b` on `u64`. -/
def mul (o : Overflow) (a b : UInt64) : Except Panic UInt64 :=
  o.check (MulFits a b) .multiplyOverflow (a * b)

/-- `a - b` on `u64`. -/
def sub (o : Overflow) (a b : UInt64) : Except Panic UInt64 :=
  o.check (b ≤ a) .subtractOverflow (a - b)

/-- `a - b` on `i64`. -/
def subSigned (o : Overflow) (a b : Int64) : Except Panic Int64 :=
  o.check (SubFits a b) .subtractOverflow (a - b)

/-- `n + 1` on `i32`. -/
def increment (o : Overflow) (n : Int32) : Except Panic Int32 :=
  o.check (n.toInt + 1 < 2 ^ 31) .addOverflow (n + 1)

variable {α : Type} {o : Overflow} {fits : Prop} [Decidable fits] {p : Panic} {r r' : α}

theorem check_eq_ok : o.check fits p r = .ok r' ↔ (fits ∨ o = .wraps) ∧ r = r' := by
  cases o with
  | panics => by_cases hfits : fits <;> simp [check, hfits]
  | wraps => simp [check]

theorem check_of_fits (h : fits) : o.check fits p r = .ok r := check_eq_ok.mpr ⟨.inl h, rfl⟩

theorem add_eq_ok {a b c : UInt64} :
    o.add a b = .ok c ↔ (a.toNat + b.toNat < 2 ^ 64 ∨ o = .wraps) ∧ a + b = c := check_eq_ok

theorem mul_eq_ok {a b c : UInt64} :
    o.mul a b = .ok c ↔ (MulFits a b ∨ o = .wraps) ∧ a * b = c := check_eq_ok

theorem sub_eq_ok {a b c : UInt64} : o.sub a b = .ok c ↔ (b ≤ a ∨ o = .wraps) ∧ a - b = c :=
  check_eq_ok

theorem subSigned_eq_ok {a b c : Int64} :
    o.subSigned a b = .ok c ↔ (SubFits a b ∨ o = .wraps) ∧ a - b = c := check_eq_ok

theorem mul_of_fits (o : Overflow) {a b : UInt64} (h : MulFits a b) : o.mul a b = .ok (a * b) :=
  check_of_fits h

theorem sub_of_le (o : Overflow) {a b : UInt64} (h : b ≤ a) : o.sub a b = .ok (a - b) :=
  check_of_fits h

end Overflow

/-! ## The checked build and the other one -/

/-- `x` comes to the result of `y`, or panics. -/
structure Refines {α : Type} (x y : Except Panic α) : Prop where
  eq_ok : ∀ {a}, x = .ok a → y = .ok a

namespace Refines

variable {α β : Type} {x y : Except Panic α} {f g : α → Except Panic β}

theorem refl (x : Except Panic α) : Refines x x := ⟨id⟩

theorem bind (h : Refines x y) (hf : ∀ a, Refines (f a) (g a)) :
    Refines (x >>= f) (y >>= g) := by
  refine ⟨fun hb => ?_⟩
  obtain ⟨a, ha, hb⟩ := bind_eq_ok.mp hb
  rw [h.eq_ok ha, ok_bind]
  exact (hf a).eq_ok hb

theorem ite {x' y' : Except Panic α} {c : Prop} [Decidable c] (h : Refines x y)
    (h' : Refines x' y') : Refines (if c then x else x') (if c then y else y') := by
  split_ifs
  · exact h
  · exact h'

theorem check (o : Overflow) (fits : Prop) [Decidable fits] (p : Panic) (a : α) :
    Refines (o.check fits p a) (Overflow.wraps.check fits p a) := by
  refine ⟨fun ha => ?_⟩
  rw [(Overflow.check_eq_ok.mp ha).2]
  rfl

end Refines

end Rust
