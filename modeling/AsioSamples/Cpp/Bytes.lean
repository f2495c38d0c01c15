import Mathlib

/-!
# Cpp/Bytes — `std::string`, `std::to_string`, `std::stoul` and `std::map` on bytes

A `char` is a byte and a `std::string` is a list of them.  The two numeric conversions are inverse
to each other on every value `unsigned long` can hold (`stoul_toString`); a `std::map` is the
partial function it represents.
-/

namespace AsioSamples

/-- The contents of a `std::string`, or of any byte buffer. -/
abbrev Bytes := List UInt8

/-- An ASCII string literal. -/
def bytes (s : String) : Bytes := s.toList.map fun c => UInt8.ofNat c.toNat

/-- `'\r'`. -/
def cr : UInt8 := 13

/-- `'\n'`. -/
def lf : UInt8 := 10

/-- `':'`. -/
def colon : UInt8 := 58

/-- `"\r\n"`. -/
def crlf : Bytes := [cr, lf]

/-- `"\r\n\r\n"`. -/
def crlfcrlf : Bytes := [cr, lf, cr, lf]

/-- `std::isspace` in the "C" locale: blank, `\t`, `\n`, `\v`, `\f`, `\r`. -/
def isSpace (b : UInt8) : Bool := b == 32 || (9 ≤ b && b ≤ 13)

/-- `std::isdigit`. -/
def isDigit (b : UInt8) : Bool := 48 ≤ b && b ≤ 57

/-! ## Decimal numerals -/

/-- `std::to_string` of an unsigned integer. -/
def toString (n : ℕ) : Bytes := (Nat.toDigits 10 n).map fun c => UInt8.ofNat c.toNat

/-- The number a run of decimal digits denotes. -/
def decimalValue (ds : Bytes) : ℕ := ds.foldl (fun n d => 10 * n + (d.toNat - 48)) 0

/-- The width of `unsigned long`: 32 bits under LLP64 and ILP32, 64 bits under LP64. -/
inductive ULong
  | bits32
  | bits64
  deriving DecidableEq

/-- `ULONG_MAX`. -/
def ULong.max : ULong → ℕ
  | .bits32 => 2 ^ 32 - 1
  | .bits64 => 2 ^ 64 - 1

/-- `std::stoul` in base 10: leading white space, an optional sign and a run of digits; what
follows the digits is ignored and a minus sign negates in the unsigned type.  `none` is a thrown
`std::logic_error` — `invalid_argument` without a digit, `out_of_range` past `ULONG_MAX`. -/
def stoul (w : ULong) (str : Bytes) : Option ℕ :=
  let body := str.dropWhile isSpace
  let neg := body.head? == some 45
  let digits := (if neg || body.head? == some 43 then body.tail else body).takeWhile isDigit
  if digits = [] then none
  else if w.max < decimalValue digits then none
  else if neg then some ((w.max + 1 - decimalValue digits) % (w.max + 1))
  else some (decimalValue digits)

@[simp] theorem stoul_nil (w : ULong) : stoul w [] = none := rfl

/-- A digit character is a digit byte. -/
theorem toNat_ofNat_of_isDigit {c : Char} (hc : c.isDigit) :
    (UInt8.ofNat c.toNat).toNat = c.toNat := by
  have h : c.toNat ≤ 57 := by
    simp only [Char.isDigit, Bool.and_eq_true, decide_eq_true_eq] at hc
    exact UInt32.le_iff_toNat_le.mp hc.2
  simp only [UInt8.toNat_ofNat']
  omega

theorem isDigit_ofNat_of_isDigit {c : Char} (hc : c.isDigit) : isDigit (UInt8.ofNat c.toNat) := by
  have hn := toNat_ofNat_of_isDigit hc
  simp only [Char.isDigit, Bool.and_eq_true, decide_eq_true_eq] at hc
  have h₁ := UInt32.le_iff_toNat_le.mp hc.1
  have h₂ := UInt32.le_iff_toNat_le.mp hc.2
  simp only [isDigit, Bool.and_eq_true, decide_eq_true_eq, UInt8.le_iff_toNat_le, hn]
  exact ⟨h₁, h₂⟩

theorem isDigit_of_mem_toString {n : ℕ} {b : UInt8} (h : b ∈ toString n) : isDigit b := by
  obtain ⟨c, hc, rfl⟩ := List.mem_map.mp h
  exact isDigit_ofNat_of_isDigit (Nat.isDigit_of_mem_toDigits (by omega) (by omega) hc)

theorem toString_ne_nil (n : ℕ) : toString n ≠ [] := by
  simp [toString, Nat.toDigits_ne_nil]

/-- **`to_string` writes the numeral of its argument.** -/
theorem decimalValue_toString (n : ℕ) : decimalValue (toString n) = n := by
  have hfold : ∀ (cs : List Char) (k : ℕ), (∀ c ∈ cs, c.isDigit) →
      (cs.map fun c => UInt8.ofNat c.toNat).foldl (fun n d => 10 * n + (d.toNat - 48)) k
        = Nat.ofDigitChars 10 cs k := by
    intro cs
    induction cs with
    | nil => intro k _; simp [Nat.ofDigitChars_nil]
    | cons c cs ih =>
      intro k hcs
      rw [List.map_cons, List.foldl_cons, Nat.ofDigitChars_cons,
        toNat_ofNat_of_isDigit (hcs c (by simp)), ih _ fun c' hc' => hcs c' (by simp [hc'])]
      rfl
  refine (hfold _ 0 fun c hc => ?_).trans Nat.ofDigitChars_ten_toDigits
  exact Nat.isDigit_of_mem_toDigits (by omega) (by omega) hc

/-- A digit is neither white space nor a sign. -/
theorem isDigit_not_isSpace {b : UInt8} (h : isDigit b) : isSpace b = false ∧ b ≠ 45 ∧ b ≠ 43 := by
  simp only [isDigit, Bool.and_eq_true, decide_eq_true_eq, UInt8.le_iff_toNat_le] at h
  have hb : ∀ k : UInt8, k.toNat < 48 → b ≠ k := by
    rintro k hk rfl
    have : (48 : UInt8).toNat = 48 := rfl
    omega
  refine ⟨?_, hb 45 (by decide), hb 43 (by decide)⟩
  have h9 : (13 : UInt8).toNat = 13 := rfl
  have h48 : (48 : UInt8).toNat = 48 := rfl
  have hle : ¬ b ≤ 13 := by rw [UInt8.le_iff_toNat_le]; omega
  simp [isSpace, hb 32 (by decide), hle]

/-- **`stoul` reads a run of digits**, with any text after it that does not go on with a digit. -/
theorem stoul_append (w : ULong) {digits : Bytes} (hne : digits ≠ [])
    (hdigits : ∀ b ∈ digits, isDigit b) (hfits : decimalValue digits ≤ w.max) (tail : Bytes)
    (ht : ∀ b ∈ tail.head?, isDigit b = false) :
    stoul w (digits ++ tail) = some (decimalValue digits) := by
  obtain ⟨d, ds, hds⟩ := List.exists_cons_of_ne_nil hne
  obtain ⟨hsp, h45, h43⟩ := isDigit_not_isSpace (hdigits d (by simp [hds]))
  have hbody : (digits ++ tail).dropWhile isSpace = digits ++ tail := by
    rw [hds, List.cons_append, List.dropWhile_cons_of_neg (by simp [hsp])]
  have hhead : (digits ++ tail).head? = some d := by simp [hds]
  have htail : tail.takeWhile isDigit = [] := by
    cases tail with
    | nil => rfl
    | cons b tail => rw [List.takeWhile_cons_of_neg (by simp [ht b (by simp)])]
  have htake : (digits ++ tail).takeWhile isDigit = digits := by
    rw [List.takeWhile_append_of_pos hdigits, htail, List.append_nil]
  have h45' : (some d == some (45 : UInt8)) = false := by simp [h45]
  have h43' : (some d == some (43 : UInt8)) = false := by simp [h43]
  simp only [stoul, hbody, hhead, h45', h43', Bool.or_false, Bool.false_eq_true, if_false, htake,
    hne, not_lt.mpr hfits]

/-- **`stoul` undoes `to_string`**, with any text after the numeral that does not go on with a
digit. -/
theorem stoul_toString_append (w : ULong) {n : ℕ} (hn : n ≤ w.max) (tail : Bytes)
    (ht : ∀ b ∈ tail.head?, isDigit b = false) : stoul w (toString n ++ tail) = some n := by
  have h := stoul_append w (toString_ne_nil n) (fun b => isDigit_of_mem_toString)
    (by rwa [decimalValue_toString]) tail ht
  rwa [decimalValue_toString] at h

theorem stoul_toString (w : ULong) {n : ℕ} (hn : n ≤ w.max) : stoul w (toString n) = some n := by
  simpa using stoul_toString_append w hn [] (by simp)

/-! ## `std::map` -/

/-- A `std::map`, as the partial function it represents. -/
def StdMap (α β : Type*) := α → Option β

namespace StdMap

variable {α β : Type*}

instance : EmptyCollection (StdMap α β) := ⟨fun _ => none⟩

/-- `find`, as the element it returns an iterator to. -/
def find (m : StdMap α β) (k : α) : Option β := m k

/-- `m[k] = v`: inserts, or overwrites. -/
def assign [DecidableEq α] (m : StdMap α β) (k : α) (v : β) : StdMap α β :=
  fun k' => if k' = k then some v else m k'

/-- `erase`. -/
def erase [DecidableEq α] (m : StdMap α β) (k : α) : StdMap α β :=
  fun k' => if k' = k then none else m k'

theorem find_assign [DecidableEq α] (m : StdMap α β) (k k' : α) (v : β) :
    (m.assign k v).find k' = if k' = k then some v else m.find k' := rfl

theorem find_erase [DecidableEq α] (m : StdMap α β) (k k' : α) :
    (m.erase k).find k' = if k' = k then none else m.find k' := rfl

end StdMap

end AsioSamples
