import DtsuBridge.Lib.Dict
import DtsuBridge.Lib.Fsum
import DtsuBridge.Lib.Numeral

/-!
# Samples, replies and exceptions

Clock readings and durations are rationals, and their sums and differences are exact, where
the source rounds them to doubles. A multiple of a setting is rounded where that matters
(`roundTime`). A sample maps canonical names to SI values in the order a poller writes them.
Exceptions carry what their source texts interpolate.
-/

namespace DtsuBridge

/-- Seconds, of a clock reading or a duration. -/
abbrev Time := ℚ

/-- A bound on an age, infinite where it was computed past the largest double. -/
abbrev TimeLimit := WithTop Time

/-- A duration that was computed in floats. -/
def roundTime (t : Time) : TimeLimit :=
  (BinFormat.binary64.round t.nnabs).map (PyFloat.signed (decide (t < 0)))

/-- Canonical SI values by name. -/
abbrev Sample := Dict String PyFloat

/-- What a Modbus client answers a read with. -/
structure Response where
  registers : List ℕ
  /-- Text of an error response. -/
  error : Option String := none
deriving DecidableEq

namespace Response

def isError (rr : Response) : Bool := rr.error.isSome

end Response

/-- `_SourceConfBase.type`. -/
inductive SourceType where
  | nd45
  | huawei
  | etango
deriving DecidableEq

/-- The `PollError` of each poller. -/
inductive PollError where
  /-- `ND45 read error at {base}: {rr}` -/
  | nd45Read (base : ℤ) (rr : Response)
  /-- `ND45 short read at {base}: got {got} of {count} registers` -/
  | nd45Short (base : ℤ) (got count : ℕ)
  /-- `ND45 invalid critical value(s): {keys}` -/
  | nd45Invalid (keys : List String)
  /-- `SmartLogger read error at {wire_base} (unit {unit}): {rr}` -/
  | smartLoggerRead (wireBase unit : ℤ) (rr : Response)
  /-- `SmartLogger short read at {wire_base} (unit {unit}): got {got} of {count} registers` -/
  | smartLoggerShort (wireBase unit : ℤ) (got count : ℕ)
  /-- `e2TANGO device {host} read error at {wire_base} (unit {unit}): {rr}` -/
  | etangoRead (host : String) (wireBase unit : ℤ) (rr : Response)
  /-- `e2TANGO device {host} short read at {wire_base} (unit {unit}): got {got} of {count}` -/
  | etangoShort (host : String) (wireBase unit : ℤ) (got count : ℕ)
  /-- `e2TANGO device {host} point {key!r} out of range (raw={raw!r})` -/
  | etangoOutOfRange (host key : String) (raw : PyFloat)
  /-- `e2TANGO device {host} produced a non-finite value for {key!r}: {value!r}` -/
  | etangoNonFinite (host key : String) (value : PyFloat)
deriving DecidableEq

/-- The module whose `PollError` it is. -/
def PollError.source : PollError → SourceType
  | nd45Read .. | nd45Short .. | nd45Invalid .. => .nd45
  | smartLoggerRead .. | smartLoggerShort .. => .huawei
  | etangoRead .. | etangoShort .. | etangoOutOfRange .. | etangoNonFinite .. => .etango

/-- An instance of `Exception`. `other` is any class the source does not name. -/
inductive PyExc where
  | pollError (e : PollError)
  | valueError (msg : String)
  | keyError (msg : String)
  | typeError (msg : String)
  | indexError (msg : String)
  | overflowError (msg : String)
  | zeroDivisionError (msg : String)
  | other (cls msg : String)
deriving DecidableEq

/-- A `PollError` of the poller of this source type. -/
def PyExc.isPollErrorOf (source : SourceType) : PyExc → Bool
  | pollError e => e.source = source
  | _ => false

/-- `sorted(set(xs))`. -/
def sortedSet {α : Type*} [LinearOrder α] (xs : List α) : List α :=
  xs.dedup.insertionSort (· ≤ ·)

/-- `repr` of a character between quotes. Past Latin-1 every character is taken as printable. -/
def reprChar (quote : String) (c : Char) : String :=
  if c.toString = quote ∨ c = '\\' then "\\" ++ c.toString
  else if c = '\t' then "\\t"
  else if c = '\n' then "\\n"
  else if c = '\r' then "\\r"
  else if c.toNat < 32 ∨ 127 ≤ c.toNat ∧ c.toNat ≤ 160 ∨ c.toNat = 173 then
    "\\x" ++ String.ofList [Nat.digitChar (c.toNat / 16), Nat.digitChar (c.toNat % 16)]
  else c.toString

/-- `repr` of a string. Only a text with single quotes and no double ones is quoted by these. -/
def strRepr (s : String) : String :=
  let has quote := s.toList.any fun c => c.toString = quote
  let quote := if has "'" && !has "\"" then "\"" else "'"
  quote ++ "".intercalate (s.toList.map (reprChar quote)) ++ quote

example : strRepr "main" = "'main'" ∧ strRepr "it's" = "\"it's\"" := by decide +kernel

/-- `repr` of a float. -/
def floatRepr (x : PyFloat) : String :=
  String.ofList (@PyFloat.repr .double x)

/-- `repr` of a list of strings. -/
def listRepr (names : List String) : String :=
  "[" ++ ", ".intercalate (names.map strRepr) ++ "]"

/-- A duration as the source prints it. -/
def timeRepr (t : Time) : String :=
  floatRepr (.fin (decide (t < 0)) t.nnabs)

/-- `f"{t:.2f}"`. -/
def fixed2 (t : Time) : String :=
  let cents := roundHalfEven (t.num.natAbs * 100) t.den
  let sign := if t < 0 then "-" else ""
  let digits := if cents % 100 < 10 then s!"0{cents % 100}" else s!"{cents % 100}"
  s!"{sign}{cents / 100}.{digits}"

/-- `f"{t:.2f}"` of a bound. -/
def fixed2Limit : TimeLimit → String
  | ⊤ => "inf"
  | (t : Time) => fixed2 t

section Float

variable [FloatArith]

/-- An integer operand of a float operation. -/
def floatOfInt (i : ℤ) : Except PyExc PyFloat :=
  match PyFloat.ofInt? i with
  | some x => .ok x
  | none => .error (.overflowError "int too large to convert to float")

/-- `x / y` of floats. -/
def truediv (x y : PyFloat) : Except PyExc PyFloat :=
  match x.truediv? y with
  | some z => .ok z
  | none => .error (.zeroDivisionError "float division by zero")

/-- `math.fsum`. -/
def fsum (xs : List PyFloat) : Except PyExc PyFloat :=
  match PyFloat.fsum xs with
  | .ok x => .ok x
  | .error .overflow => .error (.overflowError "intermediate overflow in fsum")
  | .error .invalid => .error (.valueError "-inf + inf in fsum")

end Float

end DtsuBridge
