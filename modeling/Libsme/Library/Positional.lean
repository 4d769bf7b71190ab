import Mathlib.Data.Nat.ModEq
import Mathlib.Data.List.Induction
import Mathlib.Tactic.Ring

/-! Fixed-width positional numerals, most significant digit first.
One pair of maps serves bits, hexadecimal digits, base-64 digits and the bytes
of a word; `digits_regroup` changes between bases that are powers of each other. -/
namespace Libsme.Positional

/-- The number written by a digit list, most significant digit first. -/
def value (base : Nat) (digits : List Nat) : Nat :=
  digits.foldl (fun high digit => high * base + digit) 0

/-- The last `width` digits of a number, most significant digit first. -/
def digits (base : Nat) : Nat → Nat → List Nat
  | 0, _ => []
  | width+1, number => digits base width (number / base) ++ [number % base]

@[simp] theorem value_nil (base : Nat) : value base [] = 0 := rfl

theorem value_singleton (base digit : Nat) : value base [digit] = digit := by
  simp [value]

theorem value_concat (base : Nat) (high : List Nat) (digit : Nat) :
    value base (high ++ [digit]) = value base high * base + digit := by
  simp [value,List.foldl_append]

theorem value_append (base : Nat) (high low : List Nat) :
    value base (high ++ low) = value base high * base^low.length + value base low := by
  induction low using List.reverseRecOn with
  | nil => simp
  | append_singleton low digit ih =>
    rw [← List.append_assoc,value_concat,ih,value_concat,List.length_append,List.length_singleton,pow_succ]
    ring

theorem value_cons (base digit : Nat) (low : List Nat) :
    value base (digit::low) = digit * base^low.length + value base low := by
  have split := value_append base [digit] low
  rwa [value_singleton] at split

@[simp] theorem digits_length (base width number : Nat) : (digits base width number).length = width := by
  induction width generalizing number with
  | zero => rfl
  | succ width ih => simp [digits,ih]

theorem digits_lt (base width number : Nat) (positive : 0 < base) :
    ∀ digit ∈ digits base width number, digit < base := by
  induction width generalizing number with
  | zero => simp [digits]
  | succ width ih =>
    intro digit member
    rcases List.mem_append.mp member with high | last
    · exact ih _ digit high
    · rw [List.mem_singleton.mp last]
      exact Nat.mod_lt _ positive

theorem digits_add (base high low number : Nat) :
    digits base (high+low) number = digits base high (number / base^low) ++ digits base low number := by
  induction low generalizing number with
  | zero => simp [digits]
  | succ low ih =>
    rw [← Nat.add_assoc,digits,ih,digits,List.append_assoc,Nat.div_div_eq_div_mul,← pow_succ']

theorem digits_mod (base width number : Nat) :
    digits base width (number % base^width) = digits base width number := by
  induction width generalizing number with
  | zero => rfl
  | succ width ih =>
    rw [digits,digits,pow_succ',Nat.mod_mul_right_div_self,ih,Nat.mod_mod_of_dvd _ (Dvd.intro _ rfl)]

theorem digits_zero (base width : Nat) : digits base width 0 = List.replicate width 0 := by
  induction width with
  | zero => rfl
  | succ width ih => rw [digits,Nat.zero_div,ih,Nat.zero_mod,List.replicate_succ']

theorem digits_shift (base width extra number : Nat) (positive : 0 < base) :
    digits base (width+extra) (number*base^extra) = digits base width number ++ List.replicate extra 0 := by
  have zeros : digits base extra (number*base^extra) = List.replicate extra 0 := by
    rw [← digits_mod,Nat.mul_mod_left,digits_zero]
  rw [digits_add,Nat.mul_div_cancel _ (Nat.pow_pos positive),zeros]

theorem value_digits (base width number : Nat) :
    value base (digits base width number) = number % base^width := by
  induction width generalizing number with
  | zero => simp [digits,Nat.mod_one]
  | succ width ih =>
    rw [digits,value_concat,ih,pow_succ',Nat.mod_mul]
    ring

theorem value_digits_of_lt {base width number : Nat} (bound : number < base^width) :
    value base (digits base width number) = number := by
  rw [value_digits,Nat.mod_eq_of_lt bound]

theorem digits_value (base : Nat) (list : List Nat) (small : ∀ digit ∈ list, digit < base) :
    digits base list.length (value base list) = list := by
  induction list using List.reverseRecOn with
  | nil => rfl
  | append_singleton high digit ih =>
    have last := small digit (by simp)
    have front := ih (fun d member => small d (by simp [member]))
    rw [List.length_append,List.length_singleton,digits,value_concat]
    rw [Nat.mul_comm,Nat.mul_add_div (by omega),Nat.div_eq_of_lt last,Nat.add_zero,front,
      Nat.mul_add_mod,Nat.mod_eq_of_lt last]

theorem digits_regroup (base group width number : Nat) :
    digits base (group*width) number =
      (digits (base^group) width number).flatMap (digits base group) := by
  induction width generalizing number with
  | zero => simp [digits]
  | succ width ih =>
    rw [Nat.mul_succ,digits_add,ih,digits,List.flatMap_append,List.flatMap_singleton,digits_mod]

/-- The last `width` bytes of a number, most significant first. -/
def bigEndian (width number : Nat) : List UInt8 := (digits 256 width number).map UInt8.ofNat

@[simp] theorem bigEndian_length (width number : Nat) : (bigEndian width number).length = width := by
  simp [bigEndian]

theorem bigEndian_toNat (width number : Nat) :
    (bigEndian width number).map UInt8.toNat = digits 256 width number := by
  rw [bigEndian,List.map_map]
  conv_rhs => rw [← List.map_id (digits 256 width number)]
  apply List.map_congr_left
  intro digit member
  exact UInt8.toNat_ofNat_of_lt' (digits_lt 256 width number (by decide) digit member)

theorem value_bigEndian {width number : Nat} (bound : number < 256^width) :
    value 256 ((bigEndian width number).map UInt8.toNat) = number := by
  rw [bigEndian_toNat,value_digits_of_lt bound]

def littleEndian (width number : Nat) : List UInt8 := (bigEndian width number).reverse

@[simp] theorem littleEndian_length (width number : Nat) : (littleEndian width number).length = width := by
  simp [littleEndian]

def littleEndianValue (bytes : List UInt8) : Nat := value 256 (bytes.reverse.map UInt8.toNat)

theorem littleEndianValue_reverse (bytes : List UInt8) :
    littleEndianValue bytes.reverse = value 256 (bytes.map UInt8.toNat) := by
  rw [littleEndianValue,List.reverse_reverse]

theorem littleEndianValue_littleEndian {width number : Nat} (bound : number < 256^width) :
    littleEndianValue (littleEndian width number) = number := by
  rw [littleEndian,littleEndianValue_reverse,value_bigEndian bound]

end Libsme.Positional
