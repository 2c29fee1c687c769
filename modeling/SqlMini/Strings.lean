import SqlMini.Integers
import Mathlib.Data.List.TakeWhile

/-!
# Byte strings and decimal integers

A `std::string` is a sequence of bytes, compared lexicographically by
unsigned byte value; that is the order Lean gives `List UInt8`. The module
models the conversions between such strings and `int` as the C++ standard
library documents them: `toDecimal` is `std::to_string` and `stoi` is
`std::stoi`, which skips leading white space, accepts one sign, reads the
longest run of digits, ignores what follows it and throws when there is no
digit or when the value does not fit an `int`.

The law that matters is `stoi_toDecimal`: printing an `int` and reading it
back returns it.
-/

/-- A `std::string`. -/
abbrev ByteString := List UInt8

/-- The bytes of an ASCII literal. -/
def ascii (s : String) : ByteString := s.toList.map (fun c => UInt8.ofNat c.toNat)

/-- An exception of the standard library. -/
inductive StdException where
  /-- `std::invalid_argument`, thrown by `std::stoi` where there is no digit. -/
  | invalidArgument
  /-- `std::out_of_range`, thrown by `std::stoi` where the value is no `int`. -/
  | outOfRange
  /-- `std::runtime_error` with its message. -/
  | runtimeError (message : ByteString)
  deriving DecidableEq

namespace CppString

/-- `std::isspace` in the C locale. -/
def isSpace (c : UInt8) : Bool := c == 32 || (9 ≤ c && c ≤ 13)

/-- Whether a byte is a decimal digit. -/
def isDigit (c : UInt8) : Bool := 48 ≤ c && c ≤ 57

/-- The value of a run of decimal digits, continuing from `acc`. -/
def digitsValue (s : ByteString) (acc : ℕ) : ℕ :=
  match s with
  | [] => acc
  | c :: cs => digitsValue cs (10 * acc + (c.toNat - 48))

/-- The optional sign, and what follows it. -/
def splitSign : ByteString → Bool × ByteString
  | 45 :: s => (true, s)
  | 43 :: s => (false, s)
  | s => (false, s)

/-- `std::stoi`. -/
def stoi (s : ByteString) : Except StdException CInt :=
  let (neg, rest) := splitSign (s.dropWhile isSpace)
  let digits := rest.takeWhile isDigit
  if digits = [] then .error .invalidArgument
  else
    let v : ℤ := if neg then -(digitsValue digits 0 : ℤ) else digitsValue digits 0
    if h : -2147483648 ≤ v ∧ v ≤ 2147483647 then .ok ⟨v, h⟩ else .error .outOfRange

/-- The decimal digits of a natural number. -/
def digitsOf (n : ℕ) : ByteString := (Nat.toDigits 10 n).map (fun c => UInt8.ofNat c.toNat)

/-- `std::to_string(int)`. -/
def toDecimal (z : CInt) : ByteString :=
  if z.val < 0 then 45 :: digitsOf z.val.natAbs else digitsOf z.val.natAbs

/-! ## Printing and reading back -/

/-- A printed digit is a digit. -/
theorem isDigit_of_mem_digitsOf {n : ℕ} {b : UInt8} (h : b ∈ digitsOf n) : isDigit b = true := by
  obtain ⟨c, hc, rfl⟩ := List.mem_map.mp h
  have hd := Nat.isDigit_of_mem_toDigits (by omega) le_rfl hc
  obtain ⟨h1, h2⟩ : 48 ≤ c.toNat ∧ c.toNat ≤ 57 := by
    simpa [Char.isDigit, UInt32.le_iff_toNat_le] using hd
  unfold isDigit
  rw [Bool.and_eq_true, decide_eq_true_eq, decide_eq_true_eq, UInt8.le_iff_toNat_le,
    UInt8.le_iff_toNat_le, UInt8.toNat_ofNat']
  exact ⟨show 48 ≤ c.toNat % 256 from by omega, show c.toNat % 256 ≤ 57 from by omega⟩

/-- Reading printed digits is reading the characters they were printed
from. -/
theorem digitsValue_map (acc : ℕ) (cs : List Char) (h : ∀ c ∈ cs, c.toNat < 256) :
    digitsValue (cs.map (fun c => UInt8.ofNat c.toNat)) acc = Nat.ofDigitChars 10 cs acc := by
  induction cs generalizing acc with
  | nil => simp [digitsValue]
  | cons c cs ih =>
    rw [List.map_cons, digitsValue, Nat.ofDigitChars_cons,
      ih _ (fun d hd => h d (List.mem_cons_of_mem c hd)), UInt8.toNat_ofNat',
      Nat.mod_eq_of_lt (h c List.mem_cons_self)]
    rfl

/-- **The value of the printed digits** is the number printed. -/
theorem digitsValue_digitsOf (n : ℕ) : digitsValue (digitsOf n) 0 = n := by
  have hlt : ∀ c ∈ Nat.toDigits 10 n, c.toNat < 256 := by
    intro c hc
    have hd := Nat.isDigit_of_mem_toDigits (by omega) le_rfl hc
    have h2 : 48 ≤ c.toNat ∧ c.toNat ≤ 57 := by
      simpa [Char.isDigit, UInt32.le_iff_toNat_le] using hd
    omega
  rw [digitsOf, digitsValue_map 0 _ hlt]
  simp

theorem digitsOf_ne_nil (n : ℕ) : digitsOf n ≠ [] := by
  unfold digitsOf
  simp

/-- All of the printed digits are taken as digits. -/
theorem takeWhile_digitsOf (n : ℕ) : (digitsOf n).takeWhile isDigit = digitsOf n :=
  List.takeWhile_eq_self_iff.mpr (fun _ h => isDigit_of_mem_digitsOf h)

/-- A printed number starts neither with a blank nor with a sign. -/
theorem head_digitsOf (n : ℕ) : ∃ c cs, digitsOf n = c :: cs ∧ isSpace c = false
    ∧ c ≠ 45 ∧ c ≠ 43 := by
  obtain ⟨c, cs, h⟩ := List.exists_cons_of_ne_nil (digitsOf_ne_nil n)
  have hd : isDigit c = true := isDigit_of_mem_digitsOf (n := n) (by rw [h]; simp)
  have h48 : 48 ≤ c := by
    rw [isDigit, Bool.and_eq_true, decide_eq_true_eq] at hd
    exact hd.1
  refine ⟨c, cs, h, ?_, ?_, ?_⟩
  · have h32 : c ≠ 32 := by
      rintro rfl
      exact absurd h48 (by decide)
    have h13 : ¬ c ≤ 13 := fun hc => absurd (UInt8.le_trans h48 hc) (by decide)
    simp [isSpace, h32, h13]
  · rintro rfl
    exact absurd h48 (by decide)
  · rintro rfl
    exact absurd h48 (by decide)

/-- The sign printed is the sign read. -/
theorem splitSign_toDecimal (z : CInt) :
    splitSign ((toDecimal z).dropWhile isSpace) = (decide (z.val < 0), digitsOf z.val.natAbs) := by
  obtain ⟨c, cs, h, hs, h1, h2⟩ := head_digitsOf z.val.natAbs
  unfold toDecimal
  by_cases hz : z.val < 0
  · rw [if_pos hz]
    have hsp : isSpace 45 = false := by decide
    simp [hsp, splitSign, hz]
  · rw [if_neg hz, h, List.dropWhile_cons_of_neg (by simp [hs])]
    unfold splitSign
    split
    · simp_all
    · simp_all
    · simp [hz]

/-- **Printing an `int` and reading it back returns it.** -/
theorem stoi_toDecimal (z : CInt) : stoi (toDecimal z) = .ok z := by
  unfold stoi
  rw [splitSign_toDecimal]
  dsimp only
  rw [takeWhile_digitsOf, if_neg (digitsOf_ne_nil _), digitsValue_digitsOf]
  have hv : (if decide (z.val < 0) = true then -(z.val.natAbs : ℤ) else (z.val.natAbs : ℤ))
      = z.val := by
    simp only [decide_eq_true_eq]
    split <;> omega
  simp only [hv]
  rw [dif_pos z.property]

end CppString
