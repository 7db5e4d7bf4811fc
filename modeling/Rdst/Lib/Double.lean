import Mathlib.Algebra.Order.Field.Power
import Mathlib.Data.Int.Log
import Mathlib.Data.Rat.Floor
import Mathlib.Tactic.Linarith
import Mathlib.Tactic.Positivity
import Mathlib.Tactic.FieldSimp
import Mathlib.Tactic.Ring

namespace Float64

/-- The values of the finite binary64 numbers. -/
def IsDouble (q : ℚ) : Prop := ∃ m e : ℤ, |m| < 2 ^ 53 ∧ -1074 ≤ e ∧ e ≤ 971 ∧ q = m * 2 ^ e

/-- A finite double, of which the sign of zero is not kept. -/
def Double := { q : ℚ // IsDouble q }

/-- Round to the nearest integer, ties to even. -/
def roundEven (q : ℚ) : ℤ :=
  let below := ⌊q⌋
  if q - below < 1 / 2 then below
  else if 1 / 2 < q - below then below + 1
  else if below % 2 = 0 then below
  else below + 1

/-- The exponent of the last place of a value. -/
def lastPlace (q : ℚ) : ℤ := max (-1074) (Int.log 2 |q| - 52)

def nearest (q : ℚ) : ℚ := roundEven (q / 2 ^ lastPlace q) * 2 ^ lastPlace q

/-- The double that is nearest to a value, nothing where it overflows. -/
def toDouble (q : ℚ) : Option ℚ := if |nearest q| < 2 ^ 1024 then some (nearest q) else none

theorem roundEven_int (z : ℤ) : roundEven z = z := by
  unfold roundEven
  simp

theorem roundEven_near (q : ℚ) : |(roundEven q : ℚ) - q| ≤ 1 / 2 := by
  have low := Int.floor_le q
  have high := Int.lt_floor_add_one q
  unfold roundEven
  simp only
  split
  · rw [abs_le]
    constructor <;> linarith
  · split
    · push_cast
      rw [abs_le]
      constructor <;> linarith
    · have half : q - (⌊q⌋ : ℚ) = 1 / 2 := le_antisymm (not_lt.mp ‹_›) (not_lt.mp ‹_›)
      split
      · rw [abs_le]
        constructor <;> linarith
      · push_cast
        rw [abs_le]
        constructor <;> linarith

/-- A value below a power of the last place's bound rounds to it at most. -/
theorem roundEven_le {q : ℚ} {bound : ℤ} (below : |q| ≤ bound) : |roundEven q| ≤ bound := by
  have near := roundEven_near q
  rw [abs_le] at near below
  have upper : (roundEven q : ℚ) < bound + 1 := by linarith [near.2, below.2]
  have lower : -(bound : ℚ) - 1 < roundEven q := by linarith [near.1, below.1]
  have upper' : roundEven q < bound + 1 := by exact_mod_cast upper
  have lower' : -bound - 1 < roundEven q := by exact_mod_cast lower
  rw [abs_le]
  constructor <;> omega

theorem scaled_int (m : ℤ) {e u : ℤ} (below : u ≤ e) : (m : ℚ) * 2 ^ e / 2 ^ u = ((m * 2 ^ (e - u).toNat : ℤ) : ℚ) := by
  have split : (e : ℤ) = u + ((e - u).toNat : ℤ) := by omega
  have scale : (2 : ℚ) ^ e = 2 ^ u * 2 ^ (e - u).toNat := by
    conv_lhs => rw [split]
    rw [zpow_add₀ (by norm_num), zpow_natCast]
  have positive : (2 : ℚ) ^ u ≠ 0 := by positivity
  rw [scale]
  push_cast
  field_simp

theorem lastPlace_le {m e : ℤ} (mantissa : |m| < 2 ^ 53) (least : -1074 ≤ e) : lastPlace ((m : ℚ) * 2 ^ e) ≤ e ∨ m = 0 := by
  by_cases zero : m = 0
  · exact .inr zero
  · left
    unfold lastPlace
    apply max_le least
    have size : |(m : ℚ) * 2 ^ e| < 2 ^ (e + 53) := by
      have whole : |(m : ℚ)| < 2 ^ 53 := by exact_mod_cast mantissa
      rw [abs_mul, abs_of_pos (show (0 : ℚ) < 2 ^ e by positivity), zpow_add₀ (by norm_num), mul_comm]
      exact mul_lt_mul_of_pos_left whole (by positivity)
    have nonzero : 0 < |(m : ℚ) * 2 ^ e| := by
      rw [abs_pos]
      have power : (2 : ℚ) ^ e ≠ 0 := by positivity
      exact mul_ne_zero (by exact_mod_cast zero) power
    have log := (Int.lt_zpow_iff_log_lt (b := 2) (by norm_num) nonzero).mp (by exact_mod_cast size)
    omega

/-- A double is its own nearest one. -/
theorem toDouble_of_isDouble {q : ℚ} (double : IsDouble q) : toDouble q = some q := by
  obtain ⟨m, e, mantissa, least, most, rfl⟩ := double
  have same : nearest ((m : ℚ) * 2 ^ e) = (m : ℚ) * 2 ^ e := by
    unfold nearest
    rcases lastPlace_le mantissa least with below | zero
    · rw [scaled_int m below, roundEven_int, ← scaled_int m below]
      have positive : (2 : ℚ) ^ lastPlace ((m : ℚ) * 2 ^ e) ≠ 0 := by positivity
      field_simp
    · subst zero
      simp [roundEven]
  unfold toDouble
  rw [same, if_pos]
  have whole : |(m : ℚ)| < 2 ^ 53 := by exact_mod_cast mantissa
  calc |(m : ℚ) * 2 ^ e| = |(m : ℚ)| * 2 ^ e := by rw [abs_mul, abs_of_pos (show (0 : ℚ) < 2 ^ e by positivity)]
    _ < 2 ^ 53 * 2 ^ e := mul_lt_mul_of_pos_right whole (by positivity)
    _ ≤ 2 ^ 53 * 2 ^ (971 : ℤ) :=
      mul_le_mul_of_nonneg_left (zpow_le_zpow_right₀ (by norm_num) most) (by positivity)
    _ = 2 ^ 1024 := by rw [← zpow_natCast, ← zpow_natCast, ← zpow_add₀ (by norm_num)]; norm_num

theorem isDouble_zero : IsDouble 0 := ⟨0, 0, by norm_num, by norm_num, by norm_num, by norm_num⟩

/-- Of a mantissa that the rounding may have carried to the next power of two. -/
theorem isDouble_carried {r u : ℤ} (mantissa : |r| ≤ 2 ^ 53) (least : -1074 ≤ u)
    (bounded : |(r : ℚ) * 2 ^ u| < 2 ^ 1024) (normal : u = -1074 ∨ 2 ^ 52 ≤ |r|) : IsDouble ((r : ℚ) * 2 ^ u) := by
  have scale : |(r : ℚ) * 2 ^ u| = |(r : ℚ)| * 2 ^ u := by
    rw [abs_mul, abs_of_pos (show (0 : ℚ) < 2 ^ u by positivity)]
  have most : 2 ^ 52 ≤ |r| → u ≤ 971 := by
    intro large
    have large' : (2 : ℚ) ^ 52 ≤ |(r : ℚ)| := by exact_mod_cast large
    have size : (2 : ℚ) ^ (u + 52) < 2 ^ (1024 : ℤ) := by
      calc (2 : ℚ) ^ (u + 52) = 2 ^ 52 * 2 ^ u := by rw [zpow_add₀ (by norm_num), mul_comm]; norm_num
        _ ≤ |(r : ℚ)| * 2 ^ u := mul_le_mul_of_nonneg_right large' (by positivity)
        _ < 2 ^ (1024 : ℤ) := by rw [← scale]; exact_mod_cast bounded
    have power := (zpow_lt_zpow_iff_right₀ (show (1 : ℚ) < 2 by norm_num)).mp size
    omega
  by_cases carried : |r| = 2 ^ 53
  · have goes := most (by rw [carried]; norm_num)
    have strict : u + 1 ≤ 971 := by
      by_contra above
      have exact : u = 971 := by omega
      have whole : |(r : ℚ)| = 2 ^ 53 := by exact_mod_cast carried
      rw [scale, whole, exact, ← zpow_natCast, ← zpow_natCast, ← zpow_add₀ (by norm_num)] at bounded
      norm_num at bounded
    rcases abs_choice r with same | same
    · refine ⟨2 ^ 52, u + 1, by norm_num, by omega, strict, ?_⟩
      rw [← same, carried, zpow_add₀ (by norm_num)]
      norm_num
      ring
    · refine ⟨-2 ^ 52, u + 1, by norm_num, by omega, strict, ?_⟩
      have negative : r = -2 ^ 53 := by omega
      rw [negative, zpow_add₀ (by norm_num)]
      norm_num
      ring
  · refine ⟨r, u, lt_of_le_of_ne mantissa carried, least, ?_, rfl⟩
    rcases normal with lowest | large
    · omega
    · exact most large

theorem isDouble_of_toDouble {q d : ℚ} (rounds : toDouble q = some d) : IsDouble d := by
  unfold toDouble at rounds
  split at rounds
  · rename_i bounded
    cases rounds
    unfold nearest at bounded ⊢
    have least : -1074 ≤ lastPlace q := le_max_left _ _
    by_cases zero : q = 0
    · subst zero
      have none_ : roundEven (0 / 2 ^ lastPlace 0) = 0 := by
        rw [zero_div]
        exact roundEven_int 0
      rw [none_]
      simpa using isDouble_zero
    have size : |q| < 2 ^ (Int.log 2 |q| + 1) := by exact_mod_cast Int.lt_zpow_succ_log_self (b := 2) (by norm_num) |q|
    have above : (2 : ℚ) ^ Int.log 2 |q| ≤ |q| := by
      exact_mod_cast Int.zpow_log_le_self (b := 2) (by norm_num) (abs_pos.mpr zero)
    have power : (0 : ℚ) < 2 ^ lastPlace q := by positivity
    have scaled : |q / 2 ^ lastPlace q| = |q| / 2 ^ lastPlace q := by rw [abs_div, abs_of_pos power]
    have mantissa : |q / 2 ^ lastPlace q| ≤ ((2 ^ 53 : ℤ) : ℚ) := by
      rw [scaled, div_le_iff₀ power]
      have exponent : Int.log 2 |q| + 1 ≤ 53 + lastPlace q := by
        unfold lastPlace
        omega
      calc |q| ≤ 2 ^ (Int.log 2 |q| + 1) := size.le
        _ ≤ 2 ^ (53 + lastPlace q) := zpow_le_zpow_right₀ (by norm_num) exponent
        _ = ((2 ^ 53 : ℤ) : ℚ) * 2 ^ lastPlace q := by rw [zpow_add₀ (by norm_num)]; norm_num
    refine isDouble_carried (roundEven_le mantissa) least bounded ?_
    by_cases lowest : lastPlace q = -1074
    · exact .inl lowest
    · right
      have exponent : Int.log 2 |q| = 52 + lastPlace q := by
        unfold lastPlace at lowest ⊢
        omega
      have large : (2 : ℚ) ^ 52 ≤ |q / 2 ^ lastPlace q| := by
        rw [scaled, le_div_iff₀ power]
        rw [exponent, zpow_add₀ (by norm_num)] at above
        exact_mod_cast above
      have near := roundEven_near (q / 2 ^ lastPlace q)
      have whole : (2 : ℚ) ^ 52 - 1 < |(roundEven (q / 2 ^ lastPlace q) : ℚ)| := by
        have triangle := abs_sub_abs_le_abs_sub (q / 2 ^ lastPlace q) (roundEven (q / 2 ^ lastPlace q) : ℚ)
        rw [abs_sub_comm] at triangle
        linarith
      have whole' : (2 : ℤ) ^ 52 - 1 < |roundEven (q / 2 ^ lastPlace q)| := by exact_mod_cast whole
      omega
  · cases rounds

namespace Double

def zero : Double := ⟨0, isDouble_zero⟩

/-- The result of an operation whose exact value is known, nothing where it overflows. -/
def round (q : ℚ) : Option Double :=
  match rounds : toDouble q with
  | some d => some ⟨d, isDouble_of_toDouble rounds⟩
  | none => none

/-- An operation that gives zero where it overflows. -/
def finite (q : ℚ) : Double := (round q).getD zero

theorem finite_of_isDouble {q : ℚ} (double : IsDouble q) : (finite q).val = q := by
  unfold finite round
  split
  · rename_i d rounds
    rw [toDouble_of_isDouble double] at rounds
    exact (Option.some.inj rounds).symm
  · rename_i overflow
    rw [toDouble_of_isDouble double] at overflow
    cases overflow

theorem round_eq {q : ℚ} {x : Double} (reads : toDouble q = some x.val) : round q = some x := by
  unfold round
  split
  · rename_i d rounds
    exact congrArg some (Subtype.ext (Option.some.inj (rounds.symm.trans reads)))
  · rename_i overflow
    rw [reads] at overflow
    cases overflow

theorem toDouble_of_round {q : ℚ} {x : Double} (rounds : round q = some x) : toDouble q = some x.val := by
  unfold round at rounds
  split at rounds
  · rename_i d reads
    rw [reads, ← Option.some_inj.mp rounds]
  · cases rounds

theorem finite_int {z : ℤ} (small : |z| < 2 ^ 53) : (finite z).val = z :=
  finite_of_isDouble ⟨z, 0, small, by norm_num, by norm_num, by norm_num⟩

def max (x y : Double) : Double := if x.val < y.val then y else x

instance : DecidableEq Double := inferInstanceAs (DecidableEq { q : ℚ // IsDouble q })

end Double

/-- A number of a JSON text. -/
structure Decimal where
  digits : ℤ
  power : ℤ
deriving DecidableEq

def Decimal.value (d : Decimal) : ℚ := d.digits * 10 ^ d.power

/-- What a reader makes of a number's text. -/
def Decimal.read (d : Decimal) : Option ℚ := toDouble d.value

/-- The decimal with its last digit at a power of ten that is read back as `q`, the closer one if there are two. -/
def closest (q : ℚ) (power : ℤ) : Option Decimal :=
  let below : Decimal := ⟨⌊q / 10 ^ power⌋, power⟩
  let above : Decimal := ⟨⌊q / 10 ^ power⌋ + 1, power⟩
  if below.read = some q ∧ (above.read ≠ some q ∨ q - below.value ≤ above.value - q) then some below
  else if above.read = some q then some above
  else none

/-- Go down the powers of ten until a decimal is read back. -/
def shortest (q : ℚ) : ℕ → ℤ → Decimal
  | 0, power => ⟨⌊q / 10 ^ power⌋, power⟩
  | steps + 1, power =>
    match closest q power with
    | some d => d
    | none => shortest q steps (power - 1)

/-- `repr` of a float: the decimal of the fewest digits that is read back as it. -/
def Double.repr (x : Double) : Decimal :=
  let top := Int.log 10 |x.val|
  shortest x.val (top + 1074).toNat top

theorem closest_read {q : ℚ} {power : ℤ} {d : Decimal} (found : closest q power = some d) : d.read = some q := by
  unfold closest at found
  simp only at found
  split at found
  · rename_i reads
    cases found
    exact reads.1
  · split at found
    · rename_i reads
      cases found
      exact reads
    · cases found

theorem floor_exact {q : ℚ} (double : IsDouble q) {power : ℤ} (low : power ≤ -1074) :
    (⟨⌊q / 10 ^ power⌋, power⟩ : Decimal).value = q := by
  obtain ⟨m, e, -, least, -, rfl⟩ := double
  have whole : (m : ℚ) * 2 ^ e / 10 ^ power = ((m * 2 ^ (e - power).toNat * 5 ^ (-power).toNat : ℤ) : ℚ) := by
    have ten : (10 : ℚ) ^ power = 2 ^ power * 5 ^ power := by rw [← mul_zpow]; norm_num
    have five : (5 : ℚ) ^ power = (5 ^ (-power).toNat)⁻¹ := by
      rw [← zpow_natCast, ← zpow_neg]
      congr 1
      omega
    rw [ten, div_mul_eq_div_div, scaled_int m (show power ≤ e by omega), five]
    push_cast
    field_simp
  unfold Decimal.value
  simp only
  rw [whole, Int.floor_intCast, ← whole]
  have positive : (10 : ℚ) ^ power ≠ 0 := by positivity
  field_simp

theorem shortest_read {q : ℚ} (double : IsDouble q) (steps : ℕ) (power : ℤ) (reaches : power - steps ≤ -1074) :
    (shortest q steps power).read = some q := by
  induction steps generalizing power with
  | zero =>
    unfold shortest Decimal.read
    rw [floor_exact double (by simpa using reaches)]
    exact toDouble_of_isDouble double
  | succ steps ih =>
    unfold shortest
    cases found : closest q power with
    | none =>
      apply ih
      push_cast at reaches
      omega
    | some d => exact closest_read found

/-- A finite float is read back from its text. -/
theorem Double.repr_read (x : Double) : x.repr.read = some x.val := by
  apply shortest_read x.property
  omega

theorem roundEven_mono {a b : ℚ} (ordered : a ≤ b) : roundEven a ≤ roundEven b := by
  by_contra above
  have step : roundEven b + 1 ≤ roundEven a := by omega
  have gap : (roundEven b : ℚ) + 1 ≤ roundEven a := by exact_mod_cast step
  have nearA := abs_le.mp (roundEven_near a)
  have nearB := abs_le.mp (roundEven_near b)
  have same : a = b := by linarith [nearA.1, nearA.2, nearB.1, nearB.2]
  rw [same] at above
  exact above le_rfl

section Monotone

variable {q : ℚ} {k : ℤ}

/-- A power of two from the last place on is a value that rounding leaves alone. -/
theorem power_div_place (from_ : lastPlace q ≤ k) :
    (2 : ℚ) ^ k / 2 ^ lastPlace q = ((2 ^ (k - lastPlace q).toNat : ℤ) : ℚ) := by
  have scaled := scaled_int 1 from_
  rwa [Int.cast_one, one_mul, one_mul] at scaled

theorem le_nearest (from_ : lastPlace q ≤ k) (low : (2 : ℚ) ^ k ≤ q) : (2 : ℚ) ^ k ≤ nearest q := by
  have positive : (0 : ℚ) < 2 ^ lastPlace q := by positivity
  have scaled := roundEven_mono (div_le_div_of_nonneg_right low positive.le)
  rw [power_div_place from_, roundEven_int] at scaled
  rw [nearest, ← div_le_iff₀ positive, power_div_place from_]
  exact_mod_cast scaled

theorem nearest_le (from_ : lastPlace q ≤ k) (high : q ≤ (2 : ℚ) ^ k) : nearest q ≤ (2 : ℚ) ^ k := by
  have positive : (0 : ℚ) < 2 ^ lastPlace q := by positivity
  have scaled := roundEven_mono (div_le_div_of_nonneg_right high positive.le)
  rw [power_div_place from_, roundEven_int] at scaled
  rw [nearest, ← le_div_iff₀ positive, power_div_place from_]
  exact_mod_cast scaled

theorem neg_le_nearest (from_ : lastPlace q ≤ k) (low : -(2 : ℚ) ^ k ≤ q) : -(2 : ℚ) ^ k ≤ nearest q := by
  have positive : (0 : ℚ) < 2 ^ lastPlace q := by positivity
  have scaled := roundEven_mono (div_le_div_of_nonneg_right low positive.le)
  rw [neg_div, power_div_place from_, ← Int.cast_neg, roundEven_int] at scaled
  rw [nearest, ← div_le_iff₀ positive, neg_div, power_div_place from_]
  exact_mod_cast scaled

theorem nearest_le_neg (from_ : lastPlace q ≤ k) (high : q ≤ -(2 : ℚ) ^ k) : nearest q ≤ -(2 : ℚ) ^ k := by
  have positive : (0 : ℚ) < 2 ^ lastPlace q := by positivity
  have scaled := roundEven_mono (div_le_div_of_nonneg_right high positive.le)
  rw [neg_div, power_div_place from_, ← Int.cast_neg, roundEven_int] at scaled
  rw [nearest, ← le_div_iff₀ positive, neg_div, power_div_place from_]
  exact_mod_cast scaled

theorem lt_of_place (q : ℚ) : |q| < 2 ^ (lastPlace q + 53) := by
  have log := Int.lt_zpow_succ_log_self (b := 2) (by norm_num) |q|
  refine lt_of_lt_of_le (by exact_mod_cast log) (zpow_le_zpow_right₀ (by norm_num) ?_)
  have least := le_max_right (-1074) (Int.log 2 |q| - 52)
  rw [lastPlace]
  omega

/-- A value whose last place is not the least has all its digits. -/
theorem le_of_place (some_ : q ≠ 0) (normal : -1074 < lastPlace q) : (2 : ℚ) ^ (lastPlace q + 52) ≤ |q| := by
  have place : lastPlace q = Int.log 2 |q| - 52 := by
    rw [lastPlace] at normal ⊢
    omega
  have log := Int.zpow_log_le_self (b := 2) (by norm_num) (abs_pos.mpr some_)
  have exponent : lastPlace q + 52 = Int.log 2 |q| := by omega
  rw [exponent]
  exact_mod_cast log

theorem nearest_nonneg (sign : 0 ≤ q) : 0 ≤ nearest q := by
  have scaled := roundEven_mono (div_nonneg sign (by positivity : (0 : ℚ) ≤ 2 ^ lastPlace q))
  have zero : roundEven 0 = 0 := roundEven_int 0
  rw [zero] at scaled
  exact mul_nonneg (by exact_mod_cast scaled) (by positivity)

theorem nearest_nonpos (sign : q ≤ 0) : nearest q ≤ 0 := by
  have scaled := roundEven_mono (div_nonpos_of_nonpos_of_nonneg sign (by positivity : (0 : ℚ) ≤ 2 ^ lastPlace q))
  have zero : roundEven 0 = 0 := roundEven_int 0
  rw [zero] at scaled
  exact mul_nonpos_of_nonpos_of_nonneg (by exact_mod_cast scaled) (by positivity)

/-- Rounding to doubles keeps the order. -/
theorem nearest_mono {a b : ℚ} (ordered : a ≤ b) : nearest a ≤ nearest b := by
  by_cases mixed : a ≤ 0 ∧ 0 ≤ b
  · exact (nearest_nonpos mixed.1).trans (nearest_nonneg mixed.2)
  have some_ : a ≠ 0 ∧ b ≠ 0 := by
    constructor
    · rintro rfl
      exact mixed ⟨le_rfl, ordered⟩
    · rintro rfl
      exact mixed ⟨ordered, le_rfl⟩
  rcases lt_trichotomy (lastPlace a) (lastPlace b) with finer | same | coarser
  · have least : -1074 ≤ lastPlace a := le_max_left _ _
    have large := le_of_place some_.2 (by omega)
    have small : |a| < 2 ^ (lastPlace b + 52) :=
      (lt_of_place a).trans_le (zpow_le_zpow_right₀ (by norm_num) (by omega))
    have bounds := abs_lt.mp small
    rcases le_abs.mp large with above | below
    · exact (nearest_le (by omega) bounds.2.le).trans (le_nearest (by omega) above)
    · linarith [bounds.1]
  · rw [nearest, nearest, same]
    have positive : (0 : ℚ) < 2 ^ lastPlace b := by positivity
    have scaled := roundEven_mono (div_le_div_of_nonneg_right ordered positive.le)
    exact mul_le_mul_of_nonneg_right (by exact_mod_cast scaled) positive.le
  · have least : -1074 ≤ lastPlace b := le_max_left _ _
    have large := le_of_place some_.1 (by omega)
    have small : |b| < 2 ^ (lastPlace a + 52) :=
      (lt_of_place b).trans_le (zpow_le_zpow_right₀ (by norm_num) (by omega))
    have bounds := abs_lt.mp small
    rcases le_abs.mp large with above | below
    · linarith [bounds.2]
    · exact (nearest_le_neg (by omega) (le_neg_of_le_neg below)).trans (neg_le_nearest (by omega) bounds.1.le)

end Monotone

end Float64
