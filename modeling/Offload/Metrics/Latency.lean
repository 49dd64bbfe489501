/-!
Latencies with three significant digits: a value is counted in a bin whose width grows with the value,
and only the bins are kept.
-/

namespace Offload

/-- The bins that hold values, by their lowest value in ascending order, with how many they hold. -/
structure Latency where
  bins : List (Nat × Nat) := []
  deriving DecidableEq, Repr

namespace Latency

/-- Values from here on are not recorded. -/
def limit : Nat := 4398046511104

/-- The width of the bin of `value`: below 2048 each value has its own. -/
def width (value : Nat) : Nat :=
  if value < 2048 then 1 else 1 <<< (value.log2 - 10)

def low (value : Nat) : Nat :=
  value - value % width value

def high (value : Nat) : Nat :=
  low value + width value - 1

def count (bin : Nat) : List (Nat × Nat) → List (Nat × Nat)
  | [] => [(bin, 1)]
  | (other, n) :: bins =>
    if bin < other then (bin, 1) :: (other, n) :: bins
    else if bin = other then (other, n + 1) :: bins
    else (other, n) :: count bin bins

def record (l : Latency) (value : Nat) : Latency :=
  if value < limit then { bins := count (low value) l.bins } else l

def total (l : Latency) : Nat :=
  l.bins.foldl (fun sum (_, n) => sum + n) 0

/-- The highest value of the first bin at which at least `rank` values are reached. -/
def reach (rank : Nat) : List (Nat × Nat) → Nat
  | [] => 0
  | (bin, n) :: bins => if rank ≤ n then high bin else reach (rank - n) bins

/-- The value that the fraction `q` of all values does not exceed, as the highest of its bin. -/
def quantile (l : Latency) (q : Float) : Nat :=
  let rank := (q * (UInt64.ofNat l.total).toFloat).ceil.toUInt64.toNat
  reach (max 1 rank) l.bins

def maximum (l : Latency) : Nat :=
  (l.bins.getLast?.map fun (bin, _) => high bin).getD 0

/-- The mean of the middles of the bins, without its fraction. -/
def mean (l : Latency) : Nat :=
  let total := (UInt64.ofNat l.total).toFloat
  let share (bin n : Nat) : Float :=
    (UInt64.ofNat (bin + width bin / 2)).toFloat * (UInt64.ofNat n).toFloat / total
  (l.bins.foldl (fun sum (bin, n) => sum + share bin n) 0).toUInt64.toNat

end Latency
end Offload
