import Libsme.Library.Memory
import Libsme.Library.Positional
import Mathlib.Data.List.Basic

/-! strtok and strtol of the C library: the tokens of a string at a separator, and the
number a string starts with, clamped to a long of 64 bits. -/
namespace Libsme.CString
open Memory (cstr)

/-- What strtok gives call by call, until NULL, for one separator. -/
def strtok (separator : UInt8) (memory : List UInt8) : List (List UInt8) :=
  ((cstr memory).splitOn separator).filter (· ≠ [])

private theorem not_mem_intercalate {cell separator : UInt8} (other : cell ≠ separator) {tokens : List (List UInt8)}
    (absent : ∀ token ∈ tokens, cell ∉ token) : cell ∉ List.intercalate [separator] tokens := by
  induction tokens with
  | nil => simp
  | cons token tokens ih =>
    have here := absent token List.mem_cons_self
    have rest := ih fun part member => absent part (List.mem_cons_of_mem _ member)
    cases tokens with
    | nil => simpa using here
    | cons next tokens =>
      rw [List.intercalate_cons_cons,List.append_assoc]
      simp only [List.mem_append,List.mem_singleton,not_or]
      exact ⟨here,other,rest⟩

/-- Every list of tokens is that of some string. -/
theorem strtok_intercalate {separator : UInt8} (terminated : separator ≠ 0) {tokens : List (List UInt8)}
    (clean : ∀ token ∈ tokens, token ≠ [] ∧ separator ∉ token ∧ 0 ∉ token) (rest : List UInt8) :
    strtok separator (List.intercalate [separator] tokens ++ 0::rest) = tokens := by
  have absent := not_mem_intercalate terminated.symm fun part member => (clean part member).2.2
  rw [strtok,cstr,Memory.text_terminated absent]
  cases tokens with
  | nil => rfl
  | cons token tokens =>
    rw [List.splitOn_intercalate separator (fun part member => (clean part member).2.1) (List.cons_ne_nil _ _)]
    exact List.filter_eq_self.mpr fun part member => by simpa using (clean part member).1

def isspace (c : UInt8) : Bool := c = 32 || (9 ≤ c && c ≤ 13)

/-- The value of a digit of bases up to 36, and 36 for what is no digit. -/
def digitValue (c : UInt8) : Nat :=
  if 48 ≤ c ∧ c ≤ 57 then c.toNat - 48
  else if 65 ≤ c ∧ c ≤ 90 then c.toNat - 55
  else if 97 ≤ c ∧ c ≤ 122 then c.toNat - 87
  else 36

def magnitude (base : Nat) (string : List UInt8) : Nat :=
  Positional.value base ((string.map digitValue).takeWhile (· < base))

/-- The number in the base that its start tells: "0x" 16, "0" 8, else 10. -/
def unsigned : List UInt8 → Nat
  | 48::x::rest => if x = 120 ∨ x = 88 then magnitude 16 rest else magnitude 8 (x::rest)
  | string => magnitude 10 string

def longMax : Int := 2^63-1
def longMin : Int := -2^63
def erange : Nat := 34

structure Strtol where
  value : Int
  errno : Nat
deriving DecidableEq

def clamp (number : Int) : Strtol :=
  if longMax < number then ⟨longMax,erange⟩
  else if number < longMin then ⟨longMin,erange⟩
  else ⟨number,0⟩

/-- strtol(string, NULL, 0) with errno 0 before it. -/
def strtol (string : List UInt8) : Strtol :=
  match string.dropWhile isspace with
  | 45::rest => clamp (-(unsigned rest : Int))
  | 43::rest => clamp (unsigned rest)
  | rest => clamp (unsigned rest)

/-- (char)number. -/
def toChar (number : Int) : UInt8 := UInt8.ofNat (number%256).toNat

theorem printed_digit {number : Nat} {byte : UInt8}
    (member : byte ∈ (Nat.toDigits 10 number).map fun c => UInt8.ofNat c.toNat) : 48 ≤ byte.toNat ∧ byte.toNat ≤ 57 := by
  obtain ⟨c,digit,rfl⟩ := List.mem_map.mp member
  have range := Nat.isDigit_of_mem_toDigits (by decide) (by decide) digit
  simp only [Char.isDigit,Bool.and_eq_true,decide_eq_true_eq,ge_iff_le,UInt32.le_iff_toNat_le] at range
  have large : 48 ≤ c.toNat := range.1
  have small : c.toNat ≤ 57 := range.2
  have size : UInt8.size = 256 := rfl
  rw [UInt8.toNat_ofNat_of_lt' (by omega)]
  exact ⟨large,small⟩

end Libsme.CString
