import Sequencer.Codec.Basic
import Sequencer.Number.Decimal
import Sequencer.Text.Quoted

/-!
Checks that a codec keeps its word: the tolerance of a single value and the self-test of a whole
code space.

A value is within tolerance if its code decodes to at most one step from the clipped value, on the
scale where the codes are evenly spaced. The self-test looks at known values, at the way from codes
to values and back, and at whether every value takes the nearest code.
-/
namespace Sequencer

inductive SelfTestFault where
  | forward (value : Float) (quantity : Quantity) (got expected : Nat)
  | reverse (expected : Nat) (tag : String) (value decoded tolerance : Float)
  | roundTrip (raw : Nat) (decoded : Float) (back : Nat)
  | farther (value : Float) (quantity : Quantity) (chosen : Nat) (error : Float) (other : Nat)
      (otherError : Float)

inductive CodecError where
  | unknownTag (tag : String) (registered : List String)
  | outOfTolerance (tag : String) (value decoded tolerance : Float)
  | selfTest (tag : String) (fault : SelfTestFault)

open Decimal Text in
def toleranceMessage (tag : String) (value decoded tolerance : Float) : String :=
  s!"Codec {tag}: value {plain value} decodes back to {plain decoded}, which is off by more than the tolerance {plain tolerance}"

open Decimal Text in
def SelfTestFault.message : SelfTestFault → String
  | .forward value quantity got expected =>
    s!"forward {plain value} {quantity.symbol} gave {hex got}, expected {hex expected}"
  | .reverse expected tag value decoded tolerance =>
    s!"reverse of {hex expected}: {toleranceMessage tag value decoded tolerance}"
  | .roundTrip raw decoded back =>
    s!"code {hex raw} decodes to {plain decoded} which encodes to {hex back}"
  | .farther value quantity chosen error other otherError =>
    s!"value {plain value} {quantity.symbol} encodes to {hex chosen} (error {plain error}) while {hex other} is closer (error {plain otherError})"

def CodecError.message : CodecError → String
  | .unknownTag tag registered =>
    s!"Unknown codec tag \"{tag}\". Registered tags are {Text.quoteAll registered}"
  | .outOfTolerance tag value decoded tolerance => toleranceMessage tag value decoded tolerance
  | .selfTest tag fault => s!"Codec {tag} self-test failed: {fault.message}"

/-- The short name of an error. -/
def CodecError.kind : CodecError → String
  | .unknownTag .. => "UnknownTag"
  | .outOfTolerance .. => "OutOfTolerance"
  | .selfTest .. => "SelfTest"

namespace Codec

private def larger (a b : Float) : Float := if a.isNaN || a < b then b else a

/-- What rounding in binary64 may add to an error near a value. -/
def slack (c : Codec) (value : Float) : Float :=
  let scale := larger (c.linear value).abs c.lsb
  scale * 2.220446049250313e-16 * 4.0 + c.lsb * 1e-9

/-- Fails if a raw code decodes farther than one step from the clipped value. -/
def check (c : Codec) (value : Float) (raw : Nat) : Except CodecError Unit :=
  let decoded := c.fromRaw raw
  let error := (c.linear decoded - c.linear (c.clip value)).abs
  if error.isNaN || error > c.lsb + c.slack decoded then
    .error (.outOfTolerance c.tag value decoded c.lsb)
  else .ok ()

/-- `encode`, with every written value checked first. -/
def encodeChecked (c : Codec) (place : Place) (samples : List (Option Float)) :
    Except CodecError (List Word) := do
  for value in samples.filterMap id do
    c.check value (c.toRaw value)
  return c.encode place samples

/-- The codes that the self-test visits: all of them up to sixteen bits, beyond that every pattern
in every chunk and the largest code. -/
def testSpace (c : Codec) : List Nat :=
  if c.rawBits ≤ 16 then List.range (2 ^ c.rawBits)
  else
    (List.range c.wordsPerValue).flatMap (fun i =>
      (List.range (2 ^ 16)).map fun w => w * 2 ^ (16 * i) % 2 ^ c.rawBits) ++ [c.maxRaw]

def vectorFault (c : Codec) (vector : Float × Nat) : Option SelfTestFault :=
  let (value, expected) := vector
  let got := c.toRaw value
  if got ≠ expected then some (.forward value c.quantity got expected)
  else match c.check value expected with
    | .error (.outOfTolerance tag value decoded tolerance) =>
      some (.reverse expected tag value decoded tolerance)
    | _ => none

def roundTripFault (c : Codec) (raw : Nat) : Option SelfTestFault :=
  let decoded := c.fromRaw raw
  let back := c.toRaw decoded
  if back ≠ raw then some (.roundTrip raw decoded back) else none

/-- Looks at a point of the even scale: its code has to be at least as near as both neighbours. -/
def nearestFault (c : Codec) (x : Float) : Option SelfTestFault :=
  let value := c.fromLinear x
  if value.isNaN then none
  else
    let target := c.linear (c.clip value)
    let error (raw : Nat) := (c.linear (c.fromRaw raw) - target).abs
    let chosen := c.toRaw value
    let chosenError := error chosen
    let slack := c.slack value
    [c.neighbour chosen (-1), c.neighbour chosen 1].findSome? fun
      | some other =>
        if chosenError > error other + slack then
          some (.farther value c.quantity chosen chosenError other (error other))
        else none
      | none => none

/-- Points in steps of a quarter code, up to ten codes beyond both limits. -/
def limitPoints (c : Codec) : List Float :=
  let lo := c.linear c.limits.1
  let hi := c.linear c.limits.2
  (List.range 41).flatMap fun k =>
    let d := Float.ofNat k * 0.25 * c.lsb
    [lo - d, hi + d]

def selfTest (c : Codec) (extra : List (Float × Nat)) : Except CodecError Unit :=
  let space := c.testSpace
  let fault : Option SelfTestFault :=
    (c.vectors ++ extra).findSome? c.vectorFault
      <|> space.findSome? c.roundTripFault
      <|> (space.findSome? fun raw =>
        let x := c.linear (c.fromRaw raw)
        [x - 0.25 * c.lsb, x, x + 0.25 * c.lsb].findSome? c.nearestFault)
      <|> c.limitPoints.findSome? c.nearestFault
  match fault with
  | some fault => .error (.selfTest c.tag fault)
  | none => .ok ()

end Codec

end Sequencer
