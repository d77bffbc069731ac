import Chronoq.Foundations.Floats

/-! # Python values and exceptions that the program passes around

* `Dict κ ν`: a dictionary, up to the order of its items (no modelled code depends on that order).
* `PyException`: what a modelled call may raise. Each `raise` statement of the source has its own
  constructor or message; `raised` stands for an exception of code outside the repository.
* `PyValue`: a value of a metadata or feature dictionary supplied by a caller, with its truth value
  and its `float(...)`, which raises for a text that is no number and for an integer beyond the range
  of a double (`floatOfInt_ok_iff`).
-/

namespace Chronoq
open Foundations

set_option autoImplicit false

/-- A dictionary with keys `κ` and values `ν`. -/
abbrev Dict (κ ν : Type) := Finmap fun _ : κ => ν

/-- An exception in flight. -/
inductive PyException
  /-- `ValueError(f"task_id already registered: {tid!r}")` -/
  | taskIdAlreadyRegistered (taskId : String)
  /-- `InsufficientGroupsError(actual, required)`, a `ValueError` -/
  | insufficientGroups (actual required : ℤ)
  /-- a `RuntimeError` -/
  | runtimeError (message : String)
  /-- any other exception, by the name of its class -/
  | raised (className : String)
  deriving DecidableEq, Repr

/-- `isinstance(exc, RuntimeError)` -/
def PyException.isRuntimeError : PyException → Bool
  | .runtimeError _ => true
  | _ => false

/-- `isinstance(exc, InsufficientGroupsError)` -/
def PyException.isInsufficientGroupsError : PyException → Bool
  | .insufficientGroups _ _ => true
  | _ => false

/-- `isinstance(exc, (TypeError, ValueError))` -/
def PyException.isTypeOrValueError : PyException → Bool
  | .raised className => className = "TypeError" || className = "ValueError"
  | .runtimeError _ => false
  | _ => true

/-- A dynamically typed value. `object` is anything else, known by its truth value and its `str`. -/
inductive PyValue
  | none
  | bool (b : Bool)
  | int (n : ℤ)
  | float (x : ExtFloat)
  | str (s : String)
  | object (truthy : Bool) (text : String)
  deriving DecidableEq, Repr

/-! ## Texts of numbers -/

/-- The white space of Unicode past ASCII. -/
def wideSpaces : List ℕ :=
  [0x85, 0xa0, 0x1680, 0x2000, 0x2001, 0x2002, 0x2003, 0x2004, 0x2005, 0x2006, 0x2007, 0x2008,
    0x2009, 0x200a, 0x2028, 0x2029, 0x202f, 0x205f, 0x3000]

/-- The decimal zeros of Unicode past ASCII. Each is followed by the other nine digits. -/
def wideZeros : List ℕ :=
  [0x660, 0x6f0, 0x7c0, 0x966, 0x9e6, 0xa66, 0xae6, 0xb66, 0xbe6, 0xc66, 0xce6, 0xd66, 0xde6, 0xe50,
    0xed0, 0xf20, 0x1040, 0x1090, 0x17e0, 0x1810, 0x1946, 0x19d0, 0x1a80, 0x1a90, 0x1b50, 0x1bb0,
    0x1c40, 0x1c50, 0xa620, 0xa8d0, 0xa900, 0xa9d0, 0xa9f0, 0xaa50, 0xabf0, 0xff10, 0x104a0, 0x10d30,
    0x11066, 0x110f0, 0x11136, 0x111d0, 0x112f0, 0x11450, 0x114d0, 0x11650, 0x116c0, 0x11730,
    0x118e0, 0x11950, 0x11c50, 0x11d50, 0x11da0, 0x16a60, 0x16ac0, 0x16b50, 0x1d7ce, 0x1d7d8,
    0x1d7e2, 0x1d7ec, 0x1d7f6, 0x1e140, 0x1e2f0, 0x1e950, 0x1fbf0]

/-- Spaces and digits past ASCII count as those of ASCII. -/
def toAscii (c : Char) : Char :=
  if c.toNat < 128 then c
  else if c.toNat ∈ wideSpaces then ' '
  else match wideZeros.find? fun z => z ≤ c.toNat ∧ c.toNat < z + 10 with
    | some z => Char.ofNat (48 + (c.toNat - z))
    | none => c

def isAsciiSpace (c : Char) : Bool := c = ' ' || (9 ≤ c.toNat && c.toNat ≤ 13)

def strip (text : List Char) : List Char :=
  ((text.dropWhile isAsciiSpace).reverse.dropWhile isAsciiSpace).reverse

/-- The digits of a decimal literal after a first one, with single underscores between them, and
what follows. -/
def digitTail : List Char → List ℕ × List Char
  | '_' :: d :: rest =>
    if d.isDigit then
      let (digits, rest') := digitTail rest
      ((d.toNat - 48) :: digits, rest')
    else ([], '_' :: d :: rest)
  | c :: rest =>
    if c.isDigit then
      let (digits, rest') := digitTail rest
      ((c.toNat - 48) :: digits, rest')
    else ([], c :: rest)
  | [] => ([], [])

def digitPart : List Char → List ℕ × List Char
  | c :: rest => if c.isDigit then digitTail (c :: rest) else ([], c :: rest)
  | [] => ([], [])

/-- Whether a sign is negative, and what follows it. -/
def signed : List Char → Bool × List Char
  | '-' :: rest => (true, rest)
  | '+' :: rest => (false, rest)
  | rest => (false, rest)

/-- The exponent of a decimal literal, `0` if there is none; `none` if what is left is not one. -/
def exponentOf : List Char → Option ℤ
  | [] => some 0
  | c :: rest =>
    if c = 'e' ∨ c = 'E' then
      let (negative, rest') := signed rest
      match digitPart rest' with
      | ([], _) => none
      | (digits, []) =>
        let exponent : ℤ := Nat.ofDigits 10 digits.reverse
        some (if negative then -exponent else exponent)
      | _ => none
    else none

/-- The number that an unsigned decimal literal names. -/
def decimalOf (literal : List Char) : Option ℚ :=
  let (whole, afterWhole) := digitPart literal
  let (fraction, afterFraction) := match afterWhole with
    | '.' :: more => digitPart more
    | more => ([], more)
  if whole = [] ∧ fraction = [] then none
  else (exponentOf afterFraction).map fun (exponent : ℤ) =>
    (Nat.ofDigits 10 (whole ++ fraction).reverse : ℕ) * (10 : ℚ) ^ (exponent - (fraction.length : ℤ))

/-- `float(text)`; `none` is a `ValueError`. A number out of range is an infinity. -/
def floatOfText (text : String) : Option ExtFloat :=
  let (negative, literal) := signed (strip (text.toList.map toAscii))
  let word := String.ofList (literal.map Char.toLower)
  if word = "inf" ∨ word = "infinity" then some (if negative then .negInf else .posInf)
  else if word = "nan" then some .nan
  else (decimalOf literal).map fun (x : ℚ) => binary64.round (if negative then -x else x)

/-! ## Conversions -/

/-- `float(n)`: the nearest double, if there is one. -/
def floatOfInt (n : ℤ) : Except PyException ExtFloat :=
  match binary64.round n with
  | .finite x => .ok (.finite x)
  | _ => .error (.raised "OverflowError")

/-- `bool(value)` -/
def PyValue.truthy : PyValue → Bool
  | .none => false
  | .bool b => b
  | .int n => n ≠ 0
  | .float x => x ≠ .finite 0
  | .str s => s ≠ ""
  | .object b _ => b

/-- `float(value)` -/
def PyValue.toFloat : PyValue → Except PyException ExtFloat
  | .none => .error (.raised "TypeError")
  | .bool b => .ok (.finite (if b then 1 else 0))
  | .int n => floatOfInt n
  | .float x => .ok x
  | .str s => (floatOfText s).elim (.error (.raised "ValueError")) .ok
  | .object _ _ => .error (.raised "TypeError")

/-- An integer that rounds to a double. -/
def InDoubleRange (n : ℤ) : Prop := |n| < 2 ^ 1024 - 2 ^ 970

theorem floatOfInt_ok_iff {n : ℤ} : (∃ x, floatOfInt n = .ok x) ↔ InDoubleRange n := by
  have hround : (∃ x, floatOfInt n = .ok x) ↔ ∃ y, binary64.round n = .finite y := by
    unfold floatOfInt
    cases binary64.round n <;> simp
  rw [hround, BinaryFormat.round_finite_iff]
  have hbound : binary64.bound = ((2 ^ 1024 - 2 ^ 970 : ℤ) : ℚ) := by
    simp only [BinaryFormat.bound, Int.cast_sub, Int.cast_pow, Int.cast_ofNat]
    rfl
  rw [hbound, InDoubleRange, ← Int.cast_abs, Int.cast_lt]

/-- The only exception of the conversion. -/
theorem floatOfInt_error {n : ℤ} {exc : PyException} (h : floatOfInt n = .error exc) :
    exc = .raised "OverflowError" := by
  unfold floatOfInt at h
  split at h
  · cases h
  · exact (Except.error.inj h).symm

theorem floatOfInt_small {n : ℤ} (h : n.natAbs < 2 ^ 53) : floatOfInt n = .ok (.finite n) := by
  rw [floatOfInt, BinaryFormat.round_intCast (f := binary64) h]

theorem inDoubleRange_small {n : ℤ} (h : n.natAbs < 2 ^ 53) : InDoubleRange n :=
  floatOfInt_ok_iff.mp ⟨_, floatOfInt_small h⟩

end Chronoq
