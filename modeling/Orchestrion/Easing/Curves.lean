import Orchestrion.Scalar

set_option autoImplicit false

/-!
# Easing curves

A curve carries a value from `b` to `b + c` while the time `t` runs from zero to
`d`.  Each family of curves has one that starts slowly (`in`), one that ends
slowly (`out`), and one that does both (`inOut`).

The order of the operations is part of each curve: sums and products are written
as they are computed.
-/

namespace Orchestrion.Easing

variable {α : Type} [Scalar α]

open Scalar

/-! ## Straight line -/

def linear (t b c d : α) : Except ArithFault α := do
  let q ← quotient (c * t) d
  return b + q

/-! ## Powers -/

def quadIn (t b c d : α) : Except ArithFault α := do
  let t ← quotient t d
  return c * t * t + b

def quadOut (t b c d : α) : Except ArithFault α := do
  let t ← quotient t d
  return -c * t * (t - 2.0) + b

def quadInOut (t b c d : α) : Except ArithFault α := do
  let t ← quotient t (d / 2.0)
  if lt t 1.0 then return c / 2.0 * t * t + b
  let t := t - 1.0
  return -c / 2.0 * (t * (t - 2.0) - 1.0) + b

def cubicIn (t b c d : α) : Except ArithFault α := do
  let t ← quotient t d
  let p ← power t 3
  return c * p + b

def cubicOut (t b c d : α) : Except ArithFault α := do
  let t ← quotient t d
  let p ← power (t - 1.0) 3
  return c * (p + 1.0) + b

def cubicInOut (t b c d : α) : Except ArithFault α := do
  let t ← quotient t (d / 2.0)
  if lt t 1.0 then
    let p ← power t 3
    return c / 2.0 * p + b
  let p ← power (t - 2.0) 3
  return c / 2.0 * (p + 2.0) + b

def quartIn (t b c d : α) : Except ArithFault α := do
  let t ← quotient t d
  let p ← power t 4
  return c * p + b

def quartOut (t b c d : α) : Except ArithFault α := do
  let t ← quotient t d
  let p ← power (t - 1.0) 4
  return -c * (p - 1.0) + b

def quartInOut (t b c d : α) : Except ArithFault α := do
  let t ← quotient t (d / 2.0)
  if lt t 1.0 then
    let p ← power t 4
    return c / 2.0 * p + b
  let p ← power (t - 2.0) 4
  return -c / 2.0 * (p - 2.0) + b

def quintIn (t b c d : α) : Except ArithFault α := do
  let t ← quotient t d
  let p ← power t 5
  return c * p + b

def quintOut (t b c d : α) : Except ArithFault α := do
  let t ← quotient t d
  let p ← power (t - 1.0) 5
  return c * (p + 1.0) + b

def quintInOut (t b c d : α) : Except ArithFault α := do
  let t ← quotient t (d / 2.0)
  if lt t 1.0 then
    let p ← power t 5
    return c / 2.0 * p + b
  let p ← power (t - 2.0) 5
  return c / 2.0 * (p + 2.0) + b

/-! ## Sine, circle and exponential -/

def sineIn (t b c d : α) : Except ArithFault α := do
  let t ← quotient t d
  let w ← cos (t * (pi / 2.0))
  return -c * w + c + b

def sineOut (t b c d : α) : Except ArithFault α := do
  let t ← quotient t d
  let w ← sin (t * (pi / 2.0))
  return c * w + b

def sineInOut (t b c d : α) : Except ArithFault α := do
  let t ← quotient (pi * t) d
  let w ← cos t
  return -c / 2.0 * (w - 1.0) + b

def circIn (t b c d : α) : Except ArithFault α := do
  let t ← quotient t d
  let r ← sqrt (1.0 - t * t)
  return -c * (r - 1.0) + b

def circOut (t b c d : α) : Except ArithFault α := do
  let t ← quotient t d
  let t := t - 1.0
  let r ← sqrt (1.0 - t * t)
  return c * r + b

def circInOut (t b c d : α) : Except ArithFault α := do
  let t ← quotient t (d / 2.0)
  if lt t 1.0 then
    let r ← sqrt (1.0 - t * t)
    return -c / 2.0 * (r - 1.0) + b
  let t := t - 2.0
  let r ← sqrt (1.0 - t * t)
  return c / 2.0 * (r + 1.0) + b

def expoIn (t b c d : α) : Except ArithFault α := do
  if eq t 0.0 then return b
  let t ← quotient t d
  let p ← exp2 (10.0 * (t - 1.0))
  return c * p + b

def expoOut (t b c d : α) : Except ArithFault α := do
  if eq t d then return b + c
  let t ← quotient (-10.0 * t) d
  let p ← exp2 t
  return c * (-p + 1.0) + b

def expoInOut (t b c d : α) : Except ArithFault α := do
  if eq t 0.0 then return b
  if eq t d then return b + c
  let t ← quotient t (d / 2.0)
  if lt t 1.0 then
    let p ← exp2 (10.0 * (t - 1.0))
    return c / 2.0 * p + b
  let p ← exp2 (-10.0 * (t - 1.0))
  return c / 2.0 * (-p + 2.0) + b

/-! ## Overshoot -/

/-- How far the curves of this family run past their ends. -/
def overshoot : α := 1.70158

/-- The overshoot of the curve that runs past both ends. -/
def doubleOvershoot : α := overshoot * 1.525

def backIn (t b c d : α) : Except ArithFault α := do
  let s := overshoot
  let t ← quotient t d
  return c * t * t * ((s + 1.0) * t - s) + b

def backOut (t b c d : α) : Except ArithFault α := do
  let s := overshoot
  let t ← quotient t d
  let t := t - 1.0
  return c * (t * t * ((s + 1.0) * t + s) + 1.0) + b

def backInOut (t b c d : α) : Except ArithFault α := do
  let s := doubleOvershoot
  let t ← quotient t (d / 2.0)
  if lt t 1.0 then return c / 2.0 * (t * t * ((s + 1.0) * t - s)) + b
  let t := t - 2.0
  return c / 2.0 * (t * t * ((s + 1.0) * t + s) + 2.0) + b

/-! ## Spring -/

/-- The period of the spring in segments. -/
def springPeriod : α := 0.3

/-- The swing of a spring of period `p` at time `t`, a quarter of a period
late, in a segment of length `d`. -/
def swing (t d p : α) : Except ArithFault α := do
  let s := p / 4.0
  let angle ← quotient ((t * d - s) * (2.0 * pi)) p
  sin angle

def elasticIn (t b c d : α) : Except ArithFault α := do
  if eq t 0.0 then return b
  let t ← quotient t d
  if eq t 1.0 then return b + c
  let t := t - 1.0
  let p ← exp2 (10.0 * t)
  let w ← swing t d (d * springPeriod)
  return -(c * p * w) + b

def elasticOut (t b c d : α) : Except ArithFault α := do
  if eq t 0.0 then return b
  let t ← quotient t d
  if eq t 1.0 then return b + c
  let p ← exp2 (-10.0 * t)
  let w ← swing t d (d * springPeriod)
  return c * p * w + c + b

def elasticInOut (t b c d : α) : Except ArithFault α := do
  if eq t 0.0 then return b
  let t ← quotient t (d / 2.0)
  if eq t 2.0 then return b + c
  let period := d * (springPeriod * 1.5)
  let t := t - 1.0
  if lt t 0.0 then
    let p ← exp2 (10.0 * t)
    let w ← swing t d period
    return -0.5 * (c * p * w) + b
  let p ← exp2 (-10.0 * t)
  let w ← swing t d period
  return c * p * w * 0.5 + c + b

/-! ## Bounces -/

def bounceOut (t b c d : α) : Except ArithFault α := do
  let t ← quotient t d
  if lt t (1.0 / 2.75) then return c * (7.5625 * t * t) + b
  if lt t (2.0 / 2.75) then
    let t := t - 1.5 / 2.75
    return c * (7.5625 * t * t + 0.75) + b
  if lt t (2.5 / 2.75) then
    let t := t - 2.25 / 2.75
    return c * (7.5625 * t * t + 0.9375) + b
  let t := t - 2.625 / 2.75
  return c * (7.5625 * t * t + 0.984375) + b

def bounceIn (t b c d : α) : Except ArithFault α := do
  let mirrored ← bounceOut (d - t) 0.0 c d
  return c - mirrored + b

def bounceInOut (t b c d : α) : Except ArithFault α := do
  if lt t (d / 2.0) then
    let half ← bounceIn (t * 2.0) 0.0 c d
    return half * 0.5 + b
  let half ← bounceOut (t * 2.0 - d) 0.0 c d
  return half * 0.5 + c * 0.5 + b

end Orchestrion.Easing
