import TreeScript.Value.Bindings

/-!
# Comparisons

Sameness is equality except that a truth value is never the same as a number. Order is defined
between numbers, between texts by code points, between lists (and between tuples) by the first
difference, between bytes, between days and between times; any other two values have no order, and
to ask for it is a failure.
-/

namespace TreeScript

/-- The operators that ask for an order. -/
inductive OrderOp where
  | lt
  | gt
  | le
  | ge
  deriving DecidableEq, Repr

def OrderOp.symbol : OrderOp → String
  | .lt => "<"
  | .gt => ">"
  | .le => "<="
  | .ge => ">="

/-- Whether an operator accepts the way in which two things compare. -/
def OrderOp.accepts : OrderOp → Ordering → Bool
  | .lt, o => o == .lt
  | .gt, o => o == .gt
  | .le, o => o != .gt
  | .ge, o => o != .lt

def Value.isBool : Value → Bool
  | .bool _ => true
  | _ => false

/-- Whether two values are the same (`_same`): equal, and both or neither a truth value. -/
def Value.same (a b : Value) : Bool := a.isBool == b.isBool && a.equal b

/-- How two lists compare, by the first difference. -/
def compareLists {α : Type} (cmp : α → α → Ordering) : List α → List α → Ordering
  | [], [] => .eq
  | [], _ :: _ => .lt
  | _ :: _, [] => .gt
  | a :: as, b :: bs =>
    match cmp a b with
    | .eq => compareLists cmp as bs
    | o => o

/-- How two texts compare, by code points. -/
def compareText (s t : String) : Ordering :=
  compareLists (fun a b => compare a.toNat b.toNat) s.toList t.toList

def compareBytes (as bs : List UInt8) : Ordering :=
  compareLists (fun a b => compare a.toNat b.toNat) as bs

/-- Whether an order holds between two numbers; nothing holds of what is not a number. -/
def OrderOp.onNumbers (op : OrderOp) (a b : Number) : Bool :=
  match Number.compare? a b with
  | some o => op.accepts o
  | none => false

/-- Whether an order holds between two times. -/
def OrderOp.onTimes (op : OrderOp) (a b : DateTime) : Result Bool :=
  if a.offset.isSome != b.offset.isSome then
    throw (.type (.misfit "can't compare offset-naive and offset-aware datetimes"))
  -- without offsets the instants are those of the same clock
  else pure (op.accepts (compare a.instant b.instant))

/-- Whether one set is within another. -/
def setWithin (as bs : List Value) : Bool := as.all fun a => bs.any (Value.alike a)

/-- Whether an order by inclusion holds between two sets. -/
def OrderOp.onSets : OrderOp → List Value → List Value → Bool
  | .lt, as, bs => setWithin as bs && as.length < bs.length
  | .gt, as, bs => setWithin bs as && bs.length < as.length
  | .le, as, bs => setWithin as bs
  | .ge, as, bs => setWithin bs as

/-- The failure of two kinds that have no order. -/
def noOrder (op : OrderOp) (a b : Value) : Failure :=
  .type (.unordered op.symbol a.qualifiedKindName b.qualifiedKindName)

/-- The failure of a time and a day. -/
def timeAndDay (a b : Value) : Failure :=
  .type (.misfit s!"can't compare {a.qualifiedKindName} to {b.qualifiedKindName}")

/-- Whether an order holds between two values that are not lists or tuples. -/
def OrderOp.onScalars (op : OrderOp) (a b : Value) : Result Bool :=
  match a, b with
  | .str s, .str t => pure (op.accepts (compareText s t))
  | .bytes s, .bytes t => pure (op.accepts (compareBytes s t))
  | .date s, .date t => pure (op.accepts (compare s.ordinal t.ordinal))
  | .datetime s, .datetime t => op.onTimes s t
  -- the wording names the time first, whichever side it is on
  | .datetime _, .date _ => throw (timeAndDay a b)
  | .date _, .datetime _ => throw (timeAndDay b a)
  | .set s, .set t => pure (op.onSets s t)
  | _, _ =>
    match a.number?, b.number? with
    | some x, some y => pure (op.onNumbers x y)
    | _, _ => throw (noOrder op a b)

mutual

def OrderOp.holds (op : OrderOp) : Value → Value → Result Bool
  | .list as, .list bs => OrderOp.holdsItems op as bs
  | .tuple as, .tuple bs => OrderOp.holdsItems op as bs
  | a, b => op.onScalars a b
termination_by structural a => a

/-- Whether an order holds between two lists: between their first elements that differ, or between
their lengths if there are none. -/
def OrderOp.holdsItems (op : OrderOp) : List Value → List Value → Result Bool
  | [], bs => pure (op.accepts (compare 0 bs.length))
  | _ :: as, [] => pure (op.accepts (compare (as.length + 1) 0))
  -- lists differ at the first elements that are not alike; only these are compared
  | a :: as, b :: bs => if a.alike b then OrderOp.holdsItems op as bs else OrderOp.holds op a b
termination_by structural as => as

end

def ComparisonOp.holds : ComparisonOp → Value → Value → Result Bool
  | .eq, a, b => pure (a.same b)
  | .ne, a, b => pure (!a.same b)
  | .lt, a, b => OrderOp.lt.holds a b
  | .gt, a, b => OrderOp.gt.holds a b
  | .le, a, b => OrderOp.le.holds a b
  | .ge, a, b => OrderOp.ge.holds a b

/-- Whether a value counts as true in a condition. Unlike for a host, what is empty but no text
counts as true. -/
def Value.isTruthy : Value → Bool
  | .null => false
  | .undefined => false
  | .bool b => b
  | .int i => i != 0
  | .float x => !x.isZero && !x.isNaN
  | .str s => s != ""
  | _ => true

end TreeScript
