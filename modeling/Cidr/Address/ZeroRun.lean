import Cidr.Address.Text

/-!
# Runs of zeros

The canonical text of an IPv6 address leaves out a run of zero hextets.  This is
what it means for a run to be the longest one, and of several the leftmost, and
how such a run is found in a single pass from left to right.  The pass keeps the
best run so far and the run that it is in; this one counts as soon as it exceeds
the best.

## Main definitions

* `ZeroRun.IsIn`, `ZeroRun.IsMaximal` — runs, and whole ones.
* `ZeroRun.IsLongest` — the leftmost one of the longest runs.
* `ZeroRun.scan` — the run that a single pass finds.
-/

namespace Cidr.ZeroRun

/-- All hextets of the run are zeros of the sequence. -/
def IsIn (r : ZeroRun) (hs : List UInt16) : Prop := ∀ i < r.length, hs[r.start + i]? = some 0

/-- The run does not go on at either end. -/
structure IsMaximal (r : ZeroRun) (hs : List UInt16) : Prop where
  isIn : r.IsIn hs
  /-- There is no zero right before it. -/
  before : ∀ i, i + 1 = r.start → hs[i]? ≠ some 0
  /-- There is no zero right after it. -/
  after : hs[r.start + r.length]? ≠ some 0

/-- No run is longer, and none that begins before it is as long. -/
structure IsLongest (r : ZeroRun) (hs : List UInt16) : Prop where
  isIn : r.IsIn hs
  length_le : ∀ q : ZeroRun, q.IsIn hs → q.length ≤ r.length
  length_lt : ∀ q : ZeroRun, q.IsIn hs → q.start < r.start → q.length < r.length

/-! ### The single pass -/

/-- What a pass over hextets keeps. -/
structure Scan where
  /-- The best run so far. -/
  best : ZeroRun
  /-- The run that the pass is in; outside of a run it has no length. -/
  current : ZeroRun
  deriving DecidableEq, Repr

/-- The pass before the first hextet. -/
def Scan.initial : Scan := ⟨⟨0, 0⟩, ⟨0, 0⟩⟩

/-- The pass after the hextet at a position. -/
def Scan.step (s : Scan) (h : UInt16) (position : Nat) : Scan :=
  if h ≠ 0 then { s with current := { s.current with length := 0 } }
  else
    let start := if s.current.length = 0 then position else s.current.start
    let current : ZeroRun := ⟨start, s.current.length + 1⟩
    { best := if s.best.length < current.length then current else s.best, current }

/-- The best run that a pass over all hextets finds. -/
def scan (hs : List UInt16) : ZeroRun :=
  (hs.zipIdx.foldl (fun s e => s.step e.1 e.2) Scan.initial).best

end Cidr.ZeroRun
