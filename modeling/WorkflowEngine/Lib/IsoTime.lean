import Mathlib.Algebra.Group.Nat.Even
import Mathlib.Data.String.Basic
import Mathlib.Tactic.IntervalCases

/-!
# Times and their ISO texts

A time by its UTC fields, ordered by them from the year down, and the text that `toISOString` writes of it. The
texts of the years up to 9999 are ordered as the times are; a later year begins with a sign and sorts before them.
-/

namespace WorkflowEngine.Lib

set_option autoImplicit false

/-! ## Padded numbers -/

def digitChar (d : Nat) : Char := Char.ofNat (48 + d)

/-- The last `width` decimal digits of a number. -/
def padded : (width : Nat) → Nat → List Char
  | 0, _ => []
  | width + 1, n => digitChar (n / 10 ^ width % 10) :: padded width n

theorem digitChar_lt_iff {d e : Nat} (hd : d < 10) (he : e < 10) : digitChar d < digitChar e ↔ d < e := by
  interval_cases d <;> interval_cases e <;> decide

theorem digit_sign {sign : Char} (hsign : sign = '-' ∨ sign = '+') {d : Nat} (hd : d < 10) :
    ¬ digitChar d < sign ∧ digitChar d ≠ sign := by
  rcases hsign with rfl | rfl <;> interval_cases d <;> decide

theorem digitChar_inj {d e : Nat} (hd : d < 10) (he : e < 10) : digitChar d = digitChar e ↔ d = e := by
  interval_cases d <;> interval_cases e <;> decide

theorem digit_lt_iff {p r s d e : Nat} (hr : r < p) (hs : s < p) :
    r + p * d < s + p * e ↔ d < e ∨ d = e ∧ r < s := by
  rcases Nat.lt_trichotomy d e with h | rfl | h
  · have hstep : p * (d + 1) ≤ p * e := Nat.mul_le_mul_left p h
    rw [Nat.mul_succ] at hstep
    omega
  · omega
  · have hstep : p * (e + 1) ≤ p * d := Nat.mul_le_mul_left p h
    rw [Nat.mul_succ] at hstep
    omega

theorem digit_eq_iff {p r s d e : Nat} (hr : r < p) (hs : s < p) : r + p * d = s + p * e ↔ d = e ∧ r = s := by
  have hlt := digit_lt_iff (d := d) (e := e) hr hs
  have hgt := digit_lt_iff (d := e) (e := d) hs hr
  omega

theorem padded_append_lt_iff (width m n : Nat) (x y : List Char) :
    padded width m ++ x < padded width n ++ y ↔
      m % 10 ^ width < n % 10 ^ width ∨ m % 10 ^ width = n % 10 ^ width ∧ x < y := by
  induction width with
  | zero => simp [padded, Nat.mod_one]
  | succ width ih =>
    have hm : m / 10 ^ width % 10 < 10 := Nat.mod_lt _ (by decide)
    have hn : n / 10 ^ width % 10 < 10 := Nat.mod_lt _ (by decide)
    have hpos : 0 < 10 ^ width := Nat.pow_pos (by decide)
    rw [padded, padded, List.cons_append, List.cons_append, List.cons_lt_cons_iff, digitChar_lt_iff hm hn,
      digitChar_inj hm hn, ih, Nat.pow_succ, Nat.mod_mul, Nat.mod_mul,
      digit_lt_iff (Nat.mod_lt _ hpos) (Nat.mod_lt _ hpos), digit_eq_iff (Nat.mod_lt _ hpos) (Nat.mod_lt _ hpos)]
    tauto

/-! ## Times -/

structure UtcTime where
  year : Int
  month : Nat
  day : Nat
  hours : Nat
  minutes : Nat
  seconds : Nat
  ms : Nat
  year_range : -271821 ≤ year ∧ year ≤ 275760
  month_range : 1 ≤ month ∧ month ≤ 12
  day_range : 1 ≤ day ∧ day ≤ 31
  time_range : hours < 24 ∧ minutes < 60 ∧ seconds < 60 ∧ ms < 1000
  deriving DecidableEq

namespace UtcTime

/-- The fields below the year as one number that grows with them. -/
def inYear (t : UtcTime) : Nat :=
  ((((t.month * 32 + t.day) * 24 + t.hours) * 60 + t.minutes) * 60 + t.seconds) * 1000 + t.ms

/-- Earlier: by the year, then by the fields below it. -/
def Before (t u : UtcTime) : Prop := t.year < u.year ∨ t.year = u.year ∧ t.inYear < u.inYear

instance (t u : UtcTime) : Decidable (t.Before u) := inferInstanceAs (Decidable (_ ∨ _))

def yearChars (year : Int) : List Char :=
  if 0 ≤ year ∧ year ≤ 9999 then padded 4 year.toNat
  else (if year < 0 then '-' else '+') :: padded 6 year.natAbs

def dateChars (t : UtcTime) : List Char :=
  '-' :: padded 2 t.month ++ '-' :: padded 2 t.day ++ 'T' :: padded 2 t.hours ++ ':' :: padded 2 t.minutes ++
    ':' :: padded 2 t.seconds ++ '.' :: padded 3 t.ms ++ ['Z']

def toISOString (t : UtcTime) : String := String.ofList (yearChars t.year ++ t.dateChars)

theorem dateChars_lt_iff (t u : UtcTime) : t.dateChars < u.dateChars ↔ t.inYear < u.inYear := by
  obtain ⟨_, hm⟩ := t.month_range
  obtain ⟨_, hm'⟩ := u.month_range
  obtain ⟨_, hd⟩ := t.day_range
  obtain ⟨_, hd'⟩ := u.day_range
  obtain ⟨ht, hmin, hsec, hms⟩ := t.time_range
  obtain ⟨ht', hmin', hsec', hms'⟩ := u.time_range
  simp only [dateChars, List.cons_append, List.append_assoc, List.cons_lt_cons_self, padded_append_lt_iff]
  simp only [inYear, Nat.reducePow, lt_self_iff_false, and_false, or_false]
  omega

/-- A sign sorts before every digit. -/
theorem not_padded_lt_sign {sign : Char} (hsign : sign = '-' ∨ sign = '+') (width n : Nat) (x y : List Char) :
    ¬ padded (width + 1) n ++ x < sign :: y := by
  have hdigit : n / 10 ^ width % 10 < 10 := Nat.mod_lt _ (by decide)
  obtain ⟨hlt, hne⟩ := digit_sign hsign hdigit
  rw [padded, List.cons_append, List.cons_lt_cons_iff]
  exact fun h => h.elim hlt fun h => hne h.1

/-- Up to the year 9999 the texts are ordered as the times are. -/
theorem toISOString_lt_iff {t u : UtcTime} (ht : 0 ≤ t.year ∧ t.year ≤ 9999) (hu : u.year ≤ 9999) :
    t.toISOString < u.toISOString ↔ t.Before u := by
  rw [String.lt_iff_toList_lt, toISOString, toISOString, String.toList_ofList, String.toList_ofList, yearChars,
    if_pos ht, yearChars]
  by_cases hneg : u.year < 0
  · have hbefore : ¬ t.Before u := by
      unfold Before
      omega
    rw [if_neg (by omega), if_pos hneg, List.cons_append]
    exact iff_of_false (not_padded_lt_sign (Or.inl rfl) 3 _ _ _) hbefore
  · rw [if_pos (by omega), padded_append_lt_iff, dateChars_lt_iff, Before]
    omega

/-- A later year sorts before them all. -/
theorem not_toISOString_lt {t u : UtcTime} (ht : 0 ≤ t.year ∧ t.year ≤ 9999) (hu : 9999 < u.year) :
    ¬ t.toISOString < u.toISOString := by
  rw [String.lt_iff_toList_lt, toISOString, toISOString, String.toList_ofList, String.toList_ofList, yearChars,
    if_pos ht, yearChars, if_neg (by omega), if_neg (by omega), List.cons_append]
  exact not_padded_lt_sign (Or.inr rfl) 3 _ _ _

end UtcTime

end WorkflowEngine.Lib
