import Quadlane.Text.Basic

/-! Dates and times of day: `1979-05-27`, `07:32:00.5`, both with a `T` or a blank between them, and
then possibly an offset, `Z` or `+01:00`. Seconds may be left out. -/

namespace Quadlane.Toml

/-- A number of two digits, at most `last`. -/
def twoDigits (last : Nat) : Text → Option (Nat × Text)
  | a :: b :: rest =>
    if Text.isDigit a && Text.isDigit b && Text.toNat [a, b] ≤ last then
      some (Text.toNat [a, b], rest)
    else none
  | _ => none

def isLeapYear (year : Nat) : Bool :=
  year % 4 = 0 && (year % 100 ≠ 0 || year % 400 = 0)

def daysIn (year month : Nat) : Nat :=
  if month = 2 then if isLeapYear year then 29 else 28
  else if [4, 6, 9, 11].contains month then 30
  else 31

/-- The rest after a given byte. -/
def after (b : UInt8) : Text → Option Text
  | c :: rest => if c = b then some rest else none
  | [] => none

/-- The rest after a date. -/
def date (t : Text) : Option Text := do
  let year := t.take 4
  if year.length < 4 || !year.all Text.isDigit then none
  else
    let rest ← after 45 (t.drop 4)
    let (month, rest) ← twoDigits 12 rest
    let rest ← after 45 rest
    let (day, rest) ← twoDigits 31 rest
    if month = 0 || day = 0 || daysIn (Text.toNat year) month < day then none else some rest

/-- The rest after hours and minutes. -/
def hourMinute (t : Text) : Option Text := do
  let (_, rest) ← twoDigits 23 t
  let rest ← after 58 rest
  let (_, rest) ← twoDigits 59 rest
  some rest

/-- The rest after hours, minutes and seconds with an optional fraction. -/
def clock (t : Text) : Option Text := do
  let rest ← hourMinute t
  let rest ← after 58 rest
  let (_, rest) ← twoDigits 59 rest
  match rest with
  | 46 :: b :: more => if Text.isDigit b then some (more.dropWhile Text.isDigit) else some rest
  | _ => some rest

/-- An offset of at most 24 hours and 60 minutes, and nothing else. -/
def isOffset : Text → Bool
  | [90] => true
  | s :: rest =>
    (s = 43 || s = 45) &&
      ((twoDigits 24 rest).bind fun (_, rest) => (after 58 rest).bind (twoDigits 60)).any
        fun (_, rest) => rest.isEmpty
  | [] => false

/-- Whether a whole text is a date, a time or both. -/
def isMoment (t : Text) : Bool :=
  let t := t.map fun b => if b = 122 then 90 else if b = 116 || b = 32 then 84 else b
  match date t with
  | some [] => true
  | some (84 :: time) =>
    (clock time).any (fun rest => rest.isEmpty || isOffset rest) ||
      (hourMinute time).any (fun rest => rest.isEmpty || isOffset rest)
  | _ => (clock t).any List.isEmpty || (hourMinute t).any List.isEmpty

end Quadlane.Toml
