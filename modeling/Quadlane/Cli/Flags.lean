import Quadlane.Lane.Format
import Quadlane.Text.Quoted

/-! Flags of the command line: `-name value`, `--name value` or either with `=`; a flag that is on or
off takes a value only after `=`. The first argument that is no flag ends them, as does `--`. -/

namespace Quadlane.Cli

structure Flags where
  verbosity : Int := 0
  log : Text := []
  chunkSize : Int := 0
  seed : Int := 0
  ticks : Int := 0
  dump : Bool := false
  output : Text := []
  /-- In nanoseconds. -/
  timeout : Int := 0

/-- Why a value does not fit a flag. -/
inductive ValueError where
  | malformed
  | outOfRange
  deriving DecidableEq

def ValueError.message : ValueError → Text
  | malformed => Text.lit "parse error"
  | outOfRange => Text.lit "value out of range"

inductive FlagError where
  | help
  | form (argument : Text)
  | undefined (name : Text)
  | noArgument (name : Text)
  | badBoolean (name value : Text)
  | badValue (name value : Text) (e : ValueError)
  deriving DecidableEq

/-- What is said in front of the usage. -/
def FlagError.message? : FlagError → Option Text
  | help => none
  | form argument => some (Text.lit "bad flag syntax: " ++ argument)
  | undefined name => some (Text.lit "flag provided but not defined: -" ++ name)
  | noArgument name => some (Text.lit "flag needs an argument: -" ++ name)
  | badBoolean name value =>
    some (Text.lit "invalid boolean value " ++ Text.quote value ++ Text.lit " for -" ++ name ++
      Text.lit ": " ++ ValueError.malformed.message)
  | badValue name value e =>
    some (Text.lit "invalid value " ++ Text.quote value ++ Text.lit " for flag -" ++ name ++
      Text.lit ": " ++ e.message)

/-! ### Integers -/

/-- The value of a digit, letters included. -/
def digitValue? (b : UInt8) : Option Nat :=
  let c := Text.lowerByte b
  if Text.isDigit c then some (c.toNat - 48)
  else if 97 ≤ c && c ≤ 122 then some (c.toNat - 87)
  else none

/-- Digits in a base, underscores left out; the first digit beyond 64 bits ends the reading. -/
def magnitude (base : Nat) (n : Nat) : Text → Except ValueError Nat
  | [] => .ok n
  | b :: rest =>
    if b = 95 then magnitude base n rest
    else match digitValue? b with
      | none => .error .malformed
      | some d =>
        if base ≤ d then .error .malformed
        else if 0x10000000000000000 ≤ base * n + d then .error .outOfRange
        else magnitude base (base * n + d) rest

/-- Base and digits: `0x`, `0o`, `0b` or a mere `0` in front of more digits tell the base. -/
def splitBase : Text → Nat × Text
  | 48 :: c :: d :: rest =>
    if Text.lowerByte c = 98 then (2, d :: rest)
    else if Text.lowerByte c = 111 then (8, d :: rest)
    else if Text.lowerByte c = 120 then (16, d :: rest)
    else (8, c :: d :: rest)
  | 48 :: rest => (8, rest)
  | t => (10, t)

/-- Whether every underscore stands between digits; a base in front counts as a digit. -/
def underscoresFit (afterDigit : Bool) : Text → Bool
  | [] => true
  | [b] => b ≠ 95
  | b :: c :: rest =>
    (b ≠ 95 || (afterDigit && c ≠ 95)) && underscoresFit (b ≠ 95) (c :: rest)

def unsigned (t : Text) : Except ValueError Nat :=
  if t.isEmpty then .error .malformed
  else
    let (base, digits) := splitBase t
    match magnitude base 0 digits with
    | .error e => .error e
    | .ok n => if underscoresFit (base ≠ 10) digits then .ok n else .error .malformed

/-- An integer of 64 bits. -/
def integer (t : Text) : Except ValueError Int :=
  let negative := t.startsWith [45]
  match unsigned (if negative || t.startsWith [43] then t.drop 1 else t) with
  | .error e => .error e
  | .ok n =>
    if negative then if n ≤ 0x8000000000000000 then .ok (-n) else .error .outOfRange
    else if n < 0x8000000000000000 then .ok n
    else .error .outOfRange

def boolean? (t : Text) : Option Bool :=
  if (["1", "t", "T", "TRUE", "true", "True"].map Text.lit).contains t then some true
  else if (["0", "f", "F", "FALSE", "false", "False"].map Text.lit).contains t then some false
  else none

/-! ### Durations -/

/-- The nanoseconds of a unit. -/
def unit? (t : Text) : Option Nat :=
  [(Text.lit "ns", 1), (Text.lit "us", 1000), (Text.lit "µs", 1000), (Text.lit "μs", 1000),
    (Text.lit "ms", 1000000), (Text.lit "s", 1000000000), (Text.lit "m", 60 * 1000000000),
    (Text.lit "h", 3600 * 1000000000)].lookup t

/-- The greatest magnitude of a duration. -/
def durationLimit : Nat := 0x8000000000000000

/-- The digits of a fraction as a number, and how many they are. What would take the number beyond
the limit of durations is left out, as are all digits after it. -/
def fractionDigits (n places : Nat) : Text → Nat × Nat
  | [] => (n, places)
  | b :: rest =>
    let more := 10 * n + (b.toNat - 48)
    if durationLimit < more then (n, places) else fractionDigits more (places + 1) rest

/-- The whole nanoseconds of a fraction of a unit. They are reckoned in double precision: the unit is
divided by a power of ten, and then multiplied by the digits. -/
def fractionPart (unit : Nat) (digits : Text) : Nat :=
  let f := Format.double
  let (n, places) := fractionDigits 0 0 digits
  let factor := f.round n 0
  let quotient := f.roundQuotient unit (Nat.pow 10 places) 0
  let product := f.round (f.significand factor * f.significand quotient)
    (f.exponent factor + f.exponent quotient)
  let e := f.exponent product
  if 0 ≤ e then f.significand product <<< e.toNat else f.significand product >>> (-e).toNat

/-- Numbers with units, the sum of which is the duration; `total` is the sum so far. The sum wraps
around at 64 bits, but neither it nor a term may exceed the limit. -/
def durationTerms (total : Nat) : Nat → Text → Option Nat
  | 0, _ => none
  | fuel + 1, t =>
    if t.isEmpty then some total
    else
      let (whole, rest) := t.span Text.isDigit
      let (fraction, rest) :=
        if rest.head? = some 46 then (rest.drop 1).span Text.isDigit else ([], rest)
      let (name, rest) := rest.span fun b => b ≠ 46 && !Text.isDigit b
      if whole.isEmpty && fraction.isEmpty then none
      else match unit? name with
        | none => none
        | some unit =>
          let term := Text.toNat whole * unit + fractionPart unit fraction
          let sum := (total + term) % 0x10000000000000000
          if durationLimit < term || durationLimit < sum then none else durationTerms sum fuel rest

/-- A duration in nanoseconds. -/
def duration? (t : Text) : Option Int :=
  let negative := t.startsWith [45]
  let t := if negative || t.startsWith [43] then t.drop 1 else t
  if t = Text.lit "0" then some 0
  else if t.isEmpty then none
  else match durationTerms 0 (t.length + 1) t with
    | none => none
    | some n => if negative then some (-n) else if n < durationLimit then some n else none

/-! ### Arguments -/

/-- Gives a flag that takes a value one; `none` for a name that no such flag has. -/
def Flags.set? (f : Flags) (name value : Text) : Option (Except ValueError Flags) :=
  let number := fun (g : Int → Flags) => some ((integer value).map g)
  if name = Text.lit "v" then number fun i => { f with verbosity := i }
  else if name = Text.lit "chunk-size" then number fun i => { f with chunkSize := i }
  else if name = Text.lit "seed" then number fun i => { f with seed := i }
  else if name = Text.lit "ticks" then number fun i => { f with ticks := i }
  else if name = Text.lit "log" then some (.ok { f with log := value })
  else if name = Text.lit "o" then some (.ok { f with output := value })
  else if name = Text.lit "timeout" then
    some (match duration? value with
      | some d => .ok { f with timeout := d }
      | none => .error .malformed)
  else none

def takesValue (name : Text) : Bool :=
  (["v", "chunk-size", "seed", "ticks", "log", "o", "timeout"].map Text.lit).contains name

/-- The argument without its dashes, if it is a flag. -/
inductive Shape where
  | word
  /-- The end of the flags. -/
  | bar
  | bad
  | flag (name : Text) (value : Option Text)

def shape (argument : Text) : Shape :=
  match argument with
  | 45 :: b :: rest =>
    if b = 45 && rest.isEmpty then .bar
    else
      match if b = 45 then rest else b :: rest with
      | [] => .bad
      | c :: more =>
        if c = 45 || c = 61 then .bad
        else
          let (name, rest) := more.span (· ≠ 61)
          .flag (c :: name) (if rest.isEmpty then none else some (rest.drop 1))
  | _ => .word

/-- Sets a flag to a value. -/
def Flags.assign (f : Flags) (name value : Text) : Except FlagError Flags :=
  match f.set? name value with
  | some (.ok f) => .ok f
  | some (.error e) => .error (.badValue name value e)
  | none => .error (.undefined name)

/-- The flags in front of the other arguments, and those. -/
def parseFlags (f : Flags) : List Text → Except FlagError (Flags × List Text)
  | [] => .ok (f, [])
  | argument :: rest =>
    match shape argument with
    | .word => .ok (f, argument :: rest)
    | .bar => .ok (f, rest)
    | .bad => .error (.form argument)
    | .flag name value =>
      if name = Text.lit "dump" then
        match boolean? (value.getD (Text.lit "true")) with
        | some b => parseFlags { f with dump := b } rest
        | none => .error (.badBoolean name (value.getD []))
      else if takesValue name then
        match value, rest with
        | some v, rest =>
          match f.assign name v with
          | .ok f => parseFlags f rest
          | .error e => .error e
        | none, v :: rest =>
          match f.assign name v with
          | .ok f => parseFlags f rest
          | .error e => .error e
        | none, [] => .error (.noArgument name)
      else if name = Text.lit "help" || name = Text.lit "h" then .error .help
      else .error (.undefined name)

end Quadlane.Cli
