import ByteAtlas.Expr.Evaluate

/-!
# Exact arithmetic

A word of 64 bits stands for all integers that differ from it by multiples of 2^64, and
`Int64.ofInt` picks the word that an integer is reduced to. Sums, differences, products, quotients
and shifts to the left are the words of the exact results; remainders and shifts to the right are
exact as they are (`BinaryOp.IsExact`).

Reducing is compatible with sums, differences, products and signs. So a tree of these need not be
reduced at each node: its value is the exact value of the whole tree, reduced once
(`Expr.evaluate_exact`).
-/

namespace ByteAtlas

/-! ## 1. Shifts -/

/-- How far a shift by a word goes: its amount modulo 64, whatever its sign. -/
def shiftAmount (b : Int64) : Nat := (b.toInt % 64).toNat

/-- Two to the power of the amount of a shift. -/
def shiftFactor (b : Int64) : Int := Int.ofNat (Nat.pow 2 (shiftAmount b))

/-- The amount is also what is left of the word when it is cut to 32 bits and then to six, because
64 divides the two larger moduli. -/
theorem shiftAmount_eq_cut (b : Int64) : shiftAmount b = b.toUInt64.toUInt32.toNat % 64 := by
  have hword : b.toInt = _ := b.toBitVec.toInt_eq_toNat_cond
  have hsame : b.toUInt64.toNat = b.toBitVec.toNat := rfl
  rw [UInt64.toNat_toUInt32, hsame, shiftAmount, hword]
  split <;> omega

theorem toNat_smod (b : Int64) : (b.toBitVec.smod 64).toNat = shiftAmount b := by
  have hsmod : (b.toBitVec.smod 64).toInt = b.toInt.fmod 64 := BitVec.toInt_smod
  rw [Int.fmod_eq_emod_of_nonneg _ (by decide)] at hsmod
  have hword := (b.toBitVec.smod 64).toInt_eq_toNat_cond
  have hlt := (b.toBitVec.smod 64).isLt
  unfold shiftAmount
  split at hword <;> omega

theorem toBitVec_shiftLeft_eq (a b : Int64) :
    (a <<< b).toBitVec = a.toBitVec <<< shiftAmount b := by
  rw [Int64.toBitVec_shiftLeft, BitVec.shiftLeft_eq', toNat_smod]

/-- Shifting to the left is multiplying. -/
theorem shiftLeft_eq_ofInt (a b : Int64) : a <<< b = Int64.ofInt (a.toInt * shiftFactor b) := by
  have hfactor : BitVec.ofInt 64 (shiftFactor b) = BitVec.twoPow 64 (shiftAmount b) := by
    refine BitVec.eq_of_toNat_eq ?_
    rw [BitVec.toNat_twoPow]
    rfl
  refine Int64.toBitVec_inj.mp ?_
  rw [toBitVec_shiftLeft_eq, BitVec.shiftLeft_eq_mul_twoPow, Int64.toBitVec_ofInt, BitVec.ofInt_mul,
    hfactor]
  congr 1
  exact BitVec.ofInt_toInt.symm

/-- Shifting to the right is dividing down to the floor. -/
theorem toInt_shiftRight_eq (a b : Int64) : (a >>> b).toInt = a.toInt.fdiv (shiftFactor b) := by
  have hnonneg : 0 ≤ shiftFactor b := Int.natCast_nonneg _
  have hbits : (a >>> b).toBitVec = a.toBitVec.sshiftRight (shiftAmount b) := by
    rw [Int64.toBitVec_shiftRight, BitVec.sshiftRight_eq', toNat_smod]
  have hshift : (a >>> b).toInt = a.toInt >>> shiftAmount b :=
    (congrArg BitVec.toInt hbits).trans BitVec.toInt_sshiftRight
  rw [hshift, Int.shiftRight_eq_div_pow, Int.fdiv_eq_ediv_of_nonneg _ hnonneg]
  rfl

/-! ## 2. Single operations -/

/-- **Whether the operations are exact** on two words, up to the reduction of the result. -/
structure BinaryOp.IsExact (a b : Int64) : Prop where
  add : BinaryOp.add.apply a b = Int64.ofInt (a.toInt + b.toInt)
  sub : BinaryOp.sub.apply a b = Int64.ofInt (a.toInt - b.toInt)
  mul : BinaryOp.mul.apply a b = Int64.ofInt (a.toInt * b.toInt)
  /-- Toward zero. Only the least word divided by -1 has to be reduced. -/
  div : b ≠ 0 → BinaryOp.div.apply a b = Int64.ofInt (a.toInt.tdiv b.toInt)
  mod : b ≠ 0 → (BinaryOp.mod.apply a b).toInt = a.toInt.tmod b.toInt
  mod_sign : b ≠ 0 → BinaryOp.mod.apply a b = 0 ∨
    (BinaryOp.mod.apply a b).toInt.sign = a.toInt.sign
  div_mul_add_mod : b ≠ 0 → BinaryOp.div.apply a b * b + BinaryOp.mod.apply a b = a
  byZero : b = 0 → BinaryOp.div.apply a b = 0 ∧ BinaryOp.mod.apply a b = 0
  shl : BinaryOp.shl.apply a b = Int64.ofInt (a.toInt * shiftFactor b)
  /-- Down to the floor. -/
  shr : (BinaryOp.shr.apply a b).toInt = a.toInt.fdiv (shiftFactor b)
  /-- The amount of a shift may be cut to 32 bits before it is cut to six. -/
  amount : shiftAmount b = b.toUInt64.toUInt32.toNat % 64

namespace BinaryOp

variable {a b : Int64}

theorem apply_div (hb : b ≠ 0) : div.apply a b = Int64.ofInt (a.toInt.tdiv b.toInt) := by
  refine (if_neg hb).trans (Int64.toInt_inj.mp ?_)
  rw [Int64.toInt_div, Int64.toInt_ofInt]

theorem toInt_apply_mod (hb : b ≠ 0) : (mod.apply a b).toInt = a.toInt.tmod b.toInt :=
  (congrArg Int64.toInt (if_neg hb)).trans (Int64.toInt_mod a b)

/-- A remainder is 0 or has the sign of what is divided. -/
theorem sign_apply_mod (hb : b ≠ 0) :
    mod.apply a b = 0 ∨ (mod.apply a b).toInt.sign = a.toInt.sign := by
  have hsign := Int.sign_tmod a.toInt b.toInt
  rw [← toInt_apply_mod hb] at hsign
  split at hsign
  · exact .inl (Int64.toInt_inj.mp (Int.sign_eq_zero_iff_zero.mp hsign))
  · exact .inr hsign

/-- Quotient and remainder make up what is divided. -/
theorem apply_div_mul_add_mod (hb : b ≠ 0) : div.apply a b * b + mod.apply a b = a := by
  have hmod : mod.apply a b = Int64.ofInt (a.toInt.tmod b.toInt) := by
    rw [← toInt_apply_mod hb, Int64.ofInt_toInt]
  calc div.apply a b * b + mod.apply a b
      = Int64.ofInt (a.toInt.tdiv b.toInt) * Int64.ofInt b.toInt +
          Int64.ofInt (a.toInt.tmod b.toInt) := by rw [apply_div hb, hmod, Int64.ofInt_toInt]
    _ = Int64.ofInt (a.toInt.tdiv b.toInt * b.toInt + a.toInt.tmod b.toInt) := by
        rw [Int64.ofInt_add, Int64.ofInt_mul]
    _ = a := by rw [Int.tdiv_mul_add_tmod, Int64.ofInt_toInt]

/-- **Every operation is exact.** -/
theorem isExact (a b : Int64) : IsExact a b where
  add := by rw [Int64.ofInt_add, Int64.ofInt_toInt, Int64.ofInt_toInt]; rfl
  sub := by rw [Int64.ofInt_sub, Int64.ofInt_toInt, Int64.ofInt_toInt]; rfl
  mul := by rw [Int64.ofInt_mul, Int64.ofInt_toInt, Int64.ofInt_toInt]; rfl
  div := apply_div
  mod := toInt_apply_mod
  mod_sign := sign_apply_mod
  div_mul_add_mod := apply_div_mul_add_mod
  byZero := fun hb => ⟨if_pos hb, if_pos hb⟩
  shl := shiftLeft_eq_ofInt a b
  shr := toInt_shiftRight_eq a b
  amount := shiftAmount_eq_cut b

end BinaryOp

/-! ## 3. Trees -/

/-- Whether a tree has nothing but constants, names, sums, differences, products, signs and
complements. -/
def Expr.isPolynomial : Expr → Bool
  | .constant _ => true
  | .member q _ i _ => q.isNone && i.isNone
  | .unary _ a => a.isPolynomial
  | .binary op a b => (op == .add || op == .sub || op == .mul) && a.isPolynomial && b.isPolynomial
  | _ => false

/-- The value of a name, or its offset: that of the first root, and 0 if there is none. -/
def Environment.valueOf {ι : Type} (env : Environment Id ι) (name : String) (isOffset : Bool) :
    Int64 :=
  match env.roots with
  | [] => 0
  | inst :: _ => (Id.run (env.lookup inst name 0 isOffset)).getD 0

/-- **The exact value of a tree**, an integer of any size. -/
def Expr.exactValue {ι : Type} (env : Environment Id ι) : Expr → Int
  | .constant n => n.toInt
  | .member _ name _ isOffset => (env.valueOf name isOffset).toInt
  | .unary .negate a => -a.exactValue env
  | .unary .invert a => -a.exactValue env - 1
  | .binary .add a b => a.exactValue env + b.exactValue env
  | .binary .sub a b => a.exactValue env - b.exactValue env
  | .binary .mul a b => a.exactValue env * b.exactValue env
  | _ => 0

section

variable {ι : Type} (env : Environment Id ι)

theorem Expr.evaluate_name (name : String) (isOffset : Bool) :
    Id.run ((Expr.member none name none isOffset).evaluate env) = env.valueOf name isOffset := by
  unfold Expr.evaluate Environment.valueOf
  cases env.roots <;> simp

/-- **Reducing once is enough.** The induction is on the tree: at each node the operands stand for
their exact values. -/
theorem Expr.evaluate_of_isPolynomial : ∀ e : Expr, e.isPolynomial = true →
    Id.run (e.evaluate env) = Int64.ofInt (e.exactValue env)
  | .constant n, _ => by
    unfold Expr.evaluate Expr.exactValue
    exact (Int64.ofInt_toInt n).symm
  | .member q name i isOffset, h => by
    simp only [Expr.isPolynomial, Bool.and_eq_true, Option.isNone_iff_eq_none] at h
    obtain ⟨rfl, rfl⟩ := h
    rw [evaluate_name]
    exact (Int64.ofInt_toInt _).symm
  | .unary op a, h => by
    have ih := evaluate_of_isPolynomial a h
    have hvalue : Id.run ((Expr.unary op a).evaluate env) = op.apply (Id.run (a.evaluate env)) := by
      rw [Expr.evaluate]
      rfl
    rw [hvalue, ih]
    cases op with
    | negate => exact (Int64.ofInt_neg _).symm
    | invert =>
      rw [Expr.exactValue, Int64.ofInt_sub, Int64.ofInt_neg]
      exact Int64.not_eq_neg_sub _
  | .binary op a b, h => by
    simp only [Expr.isPolynomial, Bool.and_eq_true, Bool.or_eq_true, beq_iff_eq] at h
    obtain ⟨⟨hop, ha⟩, hb⟩ := h
    have iha := evaluate_of_isPolynomial a ha
    have ihb := evaluate_of_isPolynomial b hb
    have hvalue : Id.run ((Expr.binary op a b).evaluate env) =
        op.apply (Id.run (a.evaluate env)) (Id.run (b.evaluate env)) := by
      rw [Expr.evaluate]
      rfl
    rw [hvalue, iha, ihb]
    obtain (rfl | rfl) | rfl := hop
    · exact (Int64.ofInt_add _ _).symm
    · exact (Int64.ofInt_sub _ _).symm
    · exact (Int64.ofInt_mul _ _).symm

end

/-- **Arithmetic is exact modulo 2^64**, for single operations on any two words and for trees in any
pure environment. -/
theorem Expr.evaluate_exact :
    (∀ a b : Int64, BinaryOp.IsExact a b) ∧
      ∀ {ι : Type} (env : Environment Id ι) (e : Expr), e.isPolynomial = true →
        Id.run (e.evaluate env) = Int64.ofInt (e.exactValue env) :=
  ⟨BinaryOp.isExact, fun env e he => e.evaluate_of_isPolynomial env he⟩

/-- A product of sums that both exceed 64 bits, and the least word divided by -1. -/
theorem Expr.evaluate_exact_overflowing :
    let env := (Constants.ofList [("x", Int64.maxValue)] #[]).environment
    let x := Expr.member none "x" none false
    let e := Expr.binary .mul (.binary .add x x) (.binary .sub (.unary .invert x) (.constant 3))
    BinaryOp.div.apply Int64.minValue (-1) = Int64.ofInt 9223372036854775808 ∧
      BinaryOp.mod.apply (-7) 2 = -1 ∧ BinaryOp.shr.apply (-7) (-63) = -4 ∧
      e.isPolynomial = true ∧ e.exactValue env = -170141183460469231768580791863303208954 ∧
      Id.run (e.evaluate env) = Int64.ofInt (e.exactValue env) ∧ Id.run (e.evaluate env) = 6 := by
  intro env x e
  have hplain : e.isPolynomial = true := by decide +kernel
  have hdivided := (Expr.evaluate_exact.1 Int64.minValue (-1)).div (by decide)
  have hrest := (Expr.evaluate_exact.1 (-7) 2).mod (by decide)
  have hshifted := (Expr.evaluate_exact.1 (-7) (-63)).shr
  exact ⟨hdivided, Int64.toInt_inj.mp hrest, Int64.toInt_inj.mp hshifted, hplain, by decide +kernel,
    Expr.evaluate_exact.2 env e hplain, by decide +kernel⟩

end ByteAtlas
