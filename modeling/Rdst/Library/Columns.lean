import Mathlib.Data.Nat.Bitwise
import Rdst.Library.ReadModel

namespace Rdst.Library.Listing

open Float64 PyText Like

variable {p : Platform}

theorem lowerFrom_mem (lowering : Lowering) (before text : Text) :
    ∀ d ∈ lowering.lowerFrom before text, d.toLower = d ∧ (d = '\n' → '\n' ∈ text) := by
  induction text generalizing before with
  | nil => exact fun _ => nofun
  | cons c rest ih =>
    intro d member
    rw [Lowering.lowerFrom, List.mem_append] at member
    rcases member with now | later
    · split at now
      · rw [List.mem_singleton.mp now]
        refine ⟨toLower_toLower c, ?_⟩
        intro break_
        have code := toLower_toNat c
        rw [break_] at code
        have ten : '\n'.toNat = 10 := rfl
        have same : c = '\n' := eq_of_toNat (by split at code <;> omega)
        rw [same]
        exact List.mem_cons_self
      · obtain ⟨lowered, apart⟩ := lowering.lowered before c rest d now
        exact ⟨lowered, fun break_ => absurd break_ apart⟩
    · obtain ⟨lowered, more⟩ := ih (c :: before) d later
      exact ⟨lowered, fun break_ => List.mem_cons_of_mem c (more break_)⟩

theorem collapseFrom_break (spaced : Bool) (text : Text) : '\n' ∉ collapseFrom spaced text := by
  induction text generalizing spaced with
  | nil => exact List.not_mem_nil
  | cons c rest ih =>
    unfold collapseFrom
    split
    · split
      · exact ih true
      · rw [List.mem_cons, not_or]
        exact ⟨by decide, ih true⟩
    · rename_i solid
      rw [List.mem_cons, not_or]
      refine ⟨?_, ih false⟩
      intro same
      exact solid (same ▸ by decide)

theorem strip_subset (text : Text) : strip text ⊆ text := by
  intro c member
  unfold strip rstrip at member
  rw [List.mem_reverse] at member
  have kept := (List.dropWhile_sublist isSpace).subset member
  rw [List.mem_reverse] at kept
  exact (List.dropWhile_sublist isSpace).subset kept

theorem normalizeSearch_lowered (text : Text) : Lowered (normalizeSearch p text) :=
  fun d member => (lowerFrom_mem p.lowering [] _ d member).1

theorem normalizeSearch_break (text : Text) : '\n' ∉ normalizeSearch p text := by
  intro member
  have inside := (lowerFrom_mem p.lowering [] _ '\n' member).2 rfl
  exact collapseFrom_break false text (strip_subset _ inside)

theorem hexDigit_lower {c : Char} (hex : isHexDigit c = true) : isAscii c = true ∧ c.toLower = c := by
  have code : (48 ≤ c.toNat ∧ c.toNat ≤ 57) ∨ (97 ≤ c.toNat ∧ c.toNat ≤ 102) := by
    simpa [isHexDigit, Char.le_def, UInt32.le_iff_toNat_le] using hex
  constructor
  · simp only [isAscii, decide_eq_true_eq]
    omega
  · apply eq_of_toNat
    rw [toLower_toNat, if_neg (by omega)]

/-- A digest is in lower case. -/
theorem lowerHash_eq (entry : Entry) : entry.lowerHash p = entry.hash.val := by
  have general : ∀ (before text : Text), (∀ c ∈ text, isHexDigit c = true) → p.lowering.lowerFrom before text = text := by
    intro before text hex
    induction text generalizing before with
    | nil => rfl
    | cons c rest ih =>
      obtain ⟨ascii, lower⟩ := hexDigit_lower (hex c List.mem_cons_self)
      rw [Lowering.lowerFrom, if_pos ascii, lower, ih _ fun d member => hex d (List.mem_cons_of_mem c member)]
      rfl
  exact general [] entry.hash.val entry.hash.property

theorem hash_lowered (entry : Entry) : Lowered entry.hash.val :=
  fun c member => (hexDigit_lower (entry.hash.property c member)).2

theorem findingBit_injective : Function.Injective findingBit := by
  intro first second same
  cases first <;> cases second <;> first | rfl | cases same

theorem findingMask_testBit (findings : List Concern) (concern : Concern) :
    (findingMask findings).testBit (findingBit concern) = decide (concern ∈ findings) := by
  have general : ∀ mask : Nat, (findings.foldl (fun mask finding => mask ||| 1 <<< findingBit finding) mask).testBit
      (findingBit concern) = (mask.testBit (findingBit concern) || decide (concern ∈ findings)) := by
    induction findings with
    | nil => simp
    | cons finding rest ih =>
      intro mask
      rw [List.foldl_cons, ih, Nat.testBit_or, Nat.one_shiftLeft, Nat.testBit_two_pow, Bool.or_assoc]
      congr 1
      simp only [List.mem_cons, Bool.decide_or, findingBit_injective.eq_iff, eq_comm]
  simpa [findingMask] using general 0

theorem findingMask_and (findings : List Concern) (concern : Concern) :
    findingMask findings &&& 1 <<< findingBit concern ≠ 0 ↔ concern ∈ findings := by
  rw [Nat.one_shiftLeft, Nat.and_two_pow, findingMask_testBit]
  by_cases member : concern ∈ findings <;> simp [member]

theorem findingMask_zero (findings : List Concern) : findingMask findings = 0 ↔ findings = [] := by
  constructor
  · intro zero
    rw [List.eq_nil_iff_forall_not_mem]
    intro concern member
    have bit := findingMask_testBit findings concern
    rw [zero, Nat.zero_testBit, decide_eq_true member] at bit
    cases bit
  · rintro rfl
    rfl

section Columns

variable (entry : Entry)

theorem viewColumn_eq (name : ViewName) : viewColumn (readModelValues p entry) name = viewMatches entry name := by
  cases name with
  | new => simp [viewColumn, readModelValues, viewMatches, Entry.isNew]
  | needsAnalysis => simp [viewColumn, readModelValues, viewMatches]
  | readyToCache => simp [viewColumn, readModelValues, viewMatches]
  | _ => rfl

theorem sourceColumn_eq (name : SourceName) : sourceColumn (readModelValues p entry) name = sourceMatches entry name := by
  cases name <;> rfl

theorem paramColumn_eq (name : ParamsName) :
    paramColumn (readModelValues p entry) name = parameterMatches p.tables entry name := by
  cases name <;> rfl

theorem activitySql_eq (nowMs : Double) (name : ActivityName) :
    activitySql nowMs (readModelValues p entry) name = activityMatches p nowMs entry name := by
  unfold activitySql activityMatches
  cases activityWindowMs name with
  | none => rfl
  | some span =>
    simp only [Double.repr_read, Option.getD_some]
    rfl

theorem impactSql_eq (name : ImpactName) : impactSql (readModelValues p entry) name = impactMatches entry name := rfl

theorem priority_sign : (0 ≤ (readModelValues p entry).rmJevPriority.val) ↔ entry.priority.isSome = true := by
  cases given : entry.priority with
  | none =>
    have sign : (readModelValues p entry).rmJevPriority = .finite ((-1 : ℤ) : ℚ) := by
      simp only [readModelValues, given]
      norm_num
    rw [sign, Double.finite_int (by norm_num)]
    norm_num
  | some value =>
    have sign : (readModelValues p entry).rmJevPriority = .finite ((value.val : ℤ) : ℚ) := by
      simp only [readModelValues, given]
      norm_num
    have small := value.isLt
    rw [sign, Double.finite_int (by rw [abs_of_nonneg (by omega)]; omega)]
    simp

theorem findingColumn_eq (name : FindingName) :
    findingColumn (readModelValues p entry) name = findingMatches entry name := by
  cases name with
  | all => rfl
  | any =>
    have zero := findingMask_zero entry.findings
    simp only [findingColumn, readModelValues, findingMatches, ne_eq, zero]
    cases entry.findings <;> rfl
  | concern concern =>
    simp only [findingColumn, readModelValues, findingMatches, findingMask_and]
  | none =>
    have zero := findingMask_zero entry.findings
    have sign := priority_sign (p := p) entry
    simp only [findingColumn, findingMatches, sign]
    simp only [readModelValues, zero]
    cases entry.findings <;> simp

theorem sortTerm_eq (sort : SortName) : sortTerm (readModelValues p entry) sort = sortValue p entry sort := by
  cases sort with
  | jevConcern concern =>
    have same : findingMatches entry (.concern concern) = true ↔ findingMask entry.findings &&& 1 <<< findingBit concern ≠ 0 := by
      rw [findingMask_and]
      exact decide_eq_true_iff
    simp only [sortTerm, sortValue, same, readModelValues]
    rfl
  | _ => rfl

end Columns

end Rdst.Library.Listing
