import Marginalia.Toml.Lexical

/-! # Dates and times of TOML

A date, a time of day, or both with an optional offset. They are kept in one spelling.
-/

namespace Marginalia.Toml

/-- A number of exactly `width` digits within bounds. -/
def readField (width least most : Nat) : Read Nat := do
  let digits := (← get).take width
  if digits.length != width || !digits.all Char.isDigit then failure
  set ((← get).drop width)
  let n := Text.valueIn 10 digits
  if least ≤ n && n ≤ most then return n else failure

def daysIn (year month : Nat) : Nat :=
  if month = 2 then
    if year % 4 = 0 && (year % 100 != 0 || year % 400 = 0) then 29 else 28
  else if month ∈ [4, 6, 9, 11] then 30
  else 31

def readDate : Read Text := do
  let year ← readField 4 0 9999
  expect "-"
  let month ← readField 2 1 12
  expect "-"
  let day ← readField 2 1 (daysIn year month)
  return Text.padded 4 year ++ "-" ++ Text.padded 2 month ++ "-" ++ Text.padded 2 day

/-- The digits of a second's fraction, cut after nine and without zeros at the end. -/
def readFraction : Read Text := do
  if ← accept "." then
    let digits ← takeWhile Char.isDigit
    if digits.isEmpty then failure
    let kept := Text.dropEndWhile (· == '0') (digits.take 9)
    return if kept.isEmpty then [] else '.' :: kept
  else return []

def readTime : Read Text := do
  let hour ← readField 2 0 23
  expect ":"
  let minute ← readField 2 0 59
  expect ":"
  let second ← readField 2 0 60
  let clock := Text.padded 2 hour ++ ":" ++ Text.padded 2 minute ++ ":" ++ Text.padded 2 second
  return clock ++ (← readFraction)

def readOffset : Read Text := do
  if (← accept "Z") || (← accept "z") then return "Z"
  let negative ← accept "-"
  if !negative then expect "+"
  let hour ← readField 2 0 23
  expect ":"
  let minute ← readField 2 0 59
  let sign : Text := if negative && 0 < hour + minute then "-" else "+"
  return sign ++ Text.padded 2 hour ++ ":" ++ Text.padded 2 minute

/-- What follows a date: a time of day and perhaps an offset. -/
def readTimeAfterDate : Read Text := do
  if !((← accept "T") || (← accept "t") || (← accept " ")) then failure
  let time ← readTime
  let offset ← readOffset <|> pure []
  return "T" ++ time ++ offset

def readDatetime : Read Value := do
  let dated : Read Text := do
    let date ← readDate
    return date ++ (← readTimeAfterDate <|> pure [])
  return .datetime (← dated <|> readTime)

end Marginalia.Toml
