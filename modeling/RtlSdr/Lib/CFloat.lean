import Mathlib.Algebra.Group.Int.Defs

/-!
# C floating point as arbitrary operations

Programs that compute with `float` and `double` are modelled over any types with these
operations. Nothing is assumed of them, so what is proved holds for every rounding mode
and every contraction that is the same at each use. Lean's `Float32` and `Float` are one
instance.
-/

/-- The operations on `float`. -/
class CFloat (F : Type) extends Add F, Sub F, Mul F, Div F, Neg F, OfScientific F where
  ofInt : Int → F
  lt : F → F → Bool
  toInt16 : F → Int16
  /-- The object representation that `memcpy` sees. -/
  toBits : F → UInt32

/-- The operations on `double`, with the conversions to and from `float`. -/
class CDouble (D : Type) (F : outParam Type) extends
    Add D, Sub D, Mul D, Div D, Neg D, OfScientific D where
  ofInt : Int → D
  ofFloat : F → D
  toFloat : D → F
  sin : D → D
  cos : D → D
  exp : D → D
  round : D → D
  toInt64 : D → Int64
  bne : D → D → Bool

instance : CFloat Float32 where
  ofInt := Float32.ofInt
  lt a b := a < b
  toInt16 := Float32.toInt16
  toBits := Float32.toBits

instance : CDouble Float Float32 where
  ofInt := Float.ofInt
  ofFloat := Float32.toFloat
  toFloat := Float.toFloat32
  sin := Float.sin
  cos := Float.cos
  exp := Float.exp
  round := Float.round
  toInt64 := Float.toInt64
  bne a b := a != b

/-- Whole numbers, rounded towards zero: an arithmetic in which programs can be evaluated
inside a proof. -/
structure Whole where
  val : Int
deriving DecidableEq, Repr

instance : CFloat Whole where
  add a b := ⟨a.val + b.val⟩
  sub a b := ⟨a.val - b.val⟩
  mul a b := ⟨a.val * b.val⟩
  div a b := ⟨a.val.tdiv b.val⟩
  neg a := ⟨-a.val⟩
  ofScientific m s e := ⟨if s then m / 10 ^ e else m * 10 ^ e⟩
  ofInt := Whole.mk
  lt a b := a.val < b.val
  toInt16 a := Int16.ofInt a.val
  toBits a := UInt32.ofInt a.val

instance : CDouble Whole Whole where
  ofInt := Whole.mk
  ofFloat a := a
  toFloat a := a
  sin _ := ⟨0⟩
  cos _ := ⟨1⟩
  exp _ := ⟨0⟩
  round a := a
  toInt64 a := Int64.ofInt a.val
  bne a b := a != b
