/-
  Pacing: a long scan rests from time to time.

  * `Pacing`: after how many lines to rest, and for how long; without a time the scan only lets
    others run.
  * `Pacing.restsAfter`: whether a number of lines is a point of rest.
  * `Pacing.pause?`: the time to sleep there, if there is any.
-/

namespace SelectorRename

/-- When to rest, and for how many milliseconds. -/
structure Pacing where
  lines : Nat
  rest : Option Nat
  deriving DecidableEq, Repr

namespace Pacing

/-- The number of lines between two rests unless something else is asked for. -/
def defaultLines : Nat := 1000

/-- Lets others run, without sleeping. -/
def yielding (lines : Nat) : Pacing := ⟨lines, none⟩

/-- Never rests. -/
def disabled : Pacing := yielding 0

/-- Lets others run after the usual number of lines. -/
def standard : Pacing := yielding defaultLines

/-- Whether the scan rests after `count` lines. -/
def restsAfter (p : Pacing) (count : Nat) : Bool :=
  0 < p.lines && 0 < count && count % p.lines = 0

/-- How long the scan sleeps after `count` lines, if it does. -/
def pause? (p : Pacing) (count : Nat) : Option Nat :=
  if p.restsAfter count then p.rest.filter (0 < ·) else none

end Pacing

end SelectorRename
