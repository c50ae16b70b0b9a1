import TreeScript.Pattern.Reader

/-!
# Matching

Matching works off a stack of frames, which say what is still to be matched; where there are several
ways to go on, they are tried in order.

An attempt that fails leaves a trace: where it looked last, and the marks that it has set. A group
has two marks, one for its start and one for its end, and each of them is set on its own. Before the
next way is tried, marks that are new are removed; marks that have only been moved are put back
inside of repetitions, and stay where they are outside of them. So a group that is being matched
again can have an end before its start, and then it counts as one that has not matched.

A possessive repetition goes on from where its last round looked last, whether that round succeeded
or not.

A repetition does not go on after a round that has not moved, so it ends; the fuel argument bounds
the number of frames that are worked off one after the other.
-/

namespace TreeScript.Pattern

/-- What an attempt leaves behind. -/
structure Trace where
  /-- Where it looked last. -/
  position : Nat
  /-- The marks: those of the first group, then those of the second one, and so on. A mark that has
  been passed over is empty. -/
  marks : Array (Option Nat)

/-- Whether an attempt has succeeded, and its trace. -/
abbrev Attempt := Bool × Trace

namespace Trace

/-- A trace that looks at a position. -/
def moveTo (trace : Trace) (position : Nat) : Trace := { trace with position := position }

/-- Sets a mark. -/
def mark (trace : Trace) (index position : Nat) : Trace :=
  if index < trace.marks.size then
    { trace with marks := trace.marks.setIfInBounds index (some position) }
  else
    let passed := Array.replicate (index - trace.marks.size) none
    { trace with marks := (trace.marks ++ passed).push (some position) }

/-- Gives up an attempt that started with some marks: new marks are removed, and moved ones put back
if this happens inside of a repetition. -/
def giveUp (inside : Bool) (before : Array (Option Nat)) (trace : Trace) : Trace :=
  { trace with marks := if inside then before else trace.marks.take before.size }

/-- Start and end of what a group has matched. -/
def span? (trace : Trace) (number : Nat) : Option (Nat × Nat) :=
  match trace.marks[2 * number - 2]?, trace.marks[2 * number - 1]? with
  | some (some start), some (some stop) => if start ≤ stop then some (start, stop) else none
  | _, _ => none

/-- Whether the end of some group lies before its start. -/
def isCrossed (trace : Trace) : Bool :=
  (List.range (trace.marks.size / 2)).any fun n =>
    match trace.marks[2 * n]?, trace.marks[2 * n + 1]? with
    | some (some start), some (some stop) => stop < start
    | _, _ => false

end Trace

/-- Tries several ways in order; `undo` is done between them. -/
def tryAll {α : Type} (attempt : α → Trace → Attempt) (undo : Trace → Trace) :
    List α → Trace → Attempt
  | [], trace => (false, trace)
  | way :: rest, trace =>
    match attempt way trace with
    | (true, trace) => (true, trace)
    | (false, trace) => tryAll attempt undo rest (undo trace)

/-- Does something so many times, each time from where it came to, as long as it succeeds. -/
def times (round : Trace → Attempt) : Nat → Trace → Attempt
  | 0, trace => (true, trace)
  | n + 1, trace =>
    match round trace with
    | (true, trace) => times round n trace
    | (false, trace) => (false, trace)

/-- Does something as often as it succeeds and moves, but not more than so many times; `last` is
where the last round started. What a failed round has done to the marks is undone. -/
def whileMoving (round : Trace → Attempt) : Nat → Option Nat → Option Nat → Trace → Trace
  | 0, _, _, trace => trace
  | fuel + 1, most, last, trace =>
    if most == some 0 || last == some trace.position then trace
    else
      match round trace with
      | (true, found) => whileMoving round fuel (most.map (· - 1)) (some trace.position) found
      | (false, left) => { left with marks := trace.marks }

/-! ## Places and characters -/

/-- Whether there is a character of a word at a position. -/
def isWordAt (text : Array Glyph) (ascii : Bool) (position : Nat) : Bool :=
  match text[position]? with
  | some glyph => Category.word.contains ascii glyph.code
  | none => false

/-- Whether there is a line feed at a position. -/
def isLineFeedAt (text : Array Glyph) (position : Nat) : Bool :=
  (text[position]?.map Glyph.code) == some 10

/-- Whether a position is a place. -/
def Anchor.holds (text : Array Glyph) (position : Nat) : Anchor → Bool
  | .start ofLine => position == 0 || (ofLine && isLineFeedAt text (position - 1))
  | .textStart => position == 0
  | .finish ofLine =>
    position == text.size ||
      (isLineFeedAt text position && (ofLine || position + 1 == text.size))
  | .textEnd => position == text.size
  | .boundary ascii negated =>
    let before := position != 0 && isWordAt text ascii (position - 1)
    text.size != 0 && ((before != isWordAt text ascii position) != negated)

/-- Whether a one-character node accepts what is at a position. -/
def Node.acceptsAt (text : Array Glyph) (position : Nat) (node : Node) : Bool :=
  match text[position]? with
  | some glyph => node.accepts glyph
  | none => false

/-- How many characters from a position on a one-character node accepts, up to a number. -/
def Node.countFrom (text : Array Glyph) (node : Node) : Nat → Nat → Nat
  | 0, _ => 0
  | most + 1, position =>
    if node.acceptsAt text position then node.countFrom text most (position + 1) + 1 else 0

/-- The position after some characters if they stand at a position too, up to case. -/
def repeatedFrom? (text : Array Glyph) (case : Case) (start length position : Nat) : Option Nat :=
  let codeAt (i : Nat) : Option Nat := text[i]?.map (·.under case)
  if position + length ≤ text.size &&
      (List.range length).all (fun i => codeAt (start + i) == codeAt (position + i)) then
    some (position + length)
  else none

/-- Whether a way that starts with a node is worth trying at a position: a character or a set that
is compared as it is can be looked up at once. -/
def worthTrying (text : Array Glyph) (position : Nat) : Option Node → Bool
  | some (.literal c false .exact) => (Node.literal c false .exact).acceptsAt text position
  | some (.set negated items .exact ascii) =>
    (Node.set negated items .exact ascii).acceptsAt text position
  | _ => true

/-! ## Frames -/

/-- Something that is still to be done. -/
inductive Frame where
  /-- Nodes are matched. -/
  | nodes (nodes : List Node)
  /-- A mark is set. -/
  | mark (index : Nat)
  /-- An alternative ends. -/
  | join
  /-- A round of a repetition ends. -/
  | round (greed : Greed) (least : Nat) (most : Option Nat) (body : List Node)

/-- How far a repetition is. -/
structure Round where
  /-- How many rounds have been started. -/
  count : Nat
  /-- Where the last round beyond the least count started. -/
  last : Option Nat

/-- The node that is matched next, if it is nodes that come next. -/
def upcoming? : List Frame → Option Node
  | .nodes nodes :: rest =>
    match firstOf? nodes with
    | some node => some node
    | none => upcoming? rest
  | _ => none

/-- The positions from one down to another one. -/
def downFrom (low : Nat) : Nat → List Nat
  | 0 => [low]
  | n + 1 => (low + n + 1) :: downFrom low n

/-- Works off frames from a position on. The rounds are those of the repetitions around the next
frame, the innermost first. -/
def run (text : Array Glyph) : Nat → List Frame → List Round → Nat → Trace → Attempt
  | 0, _, _, _, trace => (false, trace)
  | _ + 1, [], _, position, trace => (true, trace.moveTo position)
  | fuel + 1, frame :: rest, rounds, position, trace =>
    let before := trace.marks
    let undo := Trace.giveUp (!rounds.isEmpty) before
    match frame with
    | .nodes [] => run text fuel rest rounds position trace
    | .join => run text fuel rest rounds position trace
    | .mark index => run text fuel rest rounds position (trace.mark index position)
    | .round greed least most body =>
      match rounds with
      | [] => (false, trace)
      | current :: outer =>
        let again (last : Option Nat) (trace : Trace) : Attempt :=
          run text fuel (.nodes body :: frame :: rest) (⟨current.count + 1, last⟩ :: outer) position
            (trace.moveTo position)
        let leave (trace : Trace) : Attempt :=
          run text fuel rest outer position (trace.moveTo position)
        let mayGoOn := most.all (current.count < ·) && current.last != some position
        let failed (trace : Trace) : Attempt := (false, trace.moveTo position)
        if current.count < least then
          match again current.last trace with
          | (true, trace) => (true, trace)
          | (false, trace) => failed trace
        else if greed == .lazy then
          match leave trace with
          | (true, trace) => (true, trace)
          | (false, trace) =>
            let trace := Trace.giveUp (!outer.isEmpty) before trace
            if mayGoOn then
              match again (some position) trace with
              | (true, trace) => (true, trace)
              | (false, trace) => failed trace
            else failed trace
        else
          let tried : Attempt := if mayGoOn then again (some position) trace else (false, trace)
          match tried with
          | (true, trace) => (true, trace)
          | (false, left) =>
            match leave { left with marks := before } with
            | (true, trace) => (true, trace)
            | (false, trace) => failed trace
    | .nodes (node :: nodes) =>
      let after := Frame.nodes nodes :: rest
      let goOn (position : Nat) (trace : Trace) : Attempt :=
        run text fuel after rounds position trace
      let within (body : List Node) (trace : Trace) : Attempt :=
        run text fuel [.nodes body] rounds trace.position trace
      match node with
      | .anchor anchor => if anchor.holds text position then goOn position trace else (false, trace)
      | .group none body => run text fuel (.nodes body :: after) rounds position trace
      | .group (some number) body =>
        run text fuel (.nodes body :: .mark (2 * number - 1) :: after) rounds position
          (trace.mark (2 * number - 2) position)
      | .branch alternatives =>
        let attempt (nodes : List Node) (trace : Trace) : Attempt :=
          if worthTrying text position (firstOf? nodes) then
            run text fuel (.nodes nodes :: .join :: after) rounds position (trace.moveTo position)
          else (false, trace)
        tryAll attempt undo alternatives trace
      | .atomic body =>
        match within body (trace.moveTo position) with
        | (true, trace) => goOn trace.position trace
        | (false, trace) => (false, trace.moveTo position)
      | .reference number case =>
        match trace.span? number with
        | some (start, stop) =>
          match repeatedFrom? text case start (stop - start) position with
          | some position => goOn position trace
          | none => (false, trace)
        | none => (false, trace)
      | .condition number onMatch otherwise =>
        let frames := match trace.span? number, otherwise with
          | some _, [] => .nodes onMatch :: after
          | some _, _ => .nodes onMatch :: .join :: after
          | none, _ => .nodes otherwise :: after
        run text fuel frames rounds position trace
      | .look behind negated body =>
        let width := (behind.map Width.least).getD 0
        if position < width then if negated then goOn position trace else (false, trace)
        else
          match within body (trace.moveTo (position - width)), negated with
          | (true, trace), false => goOn position trace
          | (false, trace), true => goOn position (undo trace)
          | (_, trace), _ => (false, trace)
      | .repetition greed least most body =>
        match singleOf? body, greed with
        | none, .possessive =>
          match times (within body) least (trace.moveTo position) with
          | (false, trace) => (false, trace.moveTo position)
          | (true, trace) =>
            let trace := whileMoving (within body) fuel (most.map (· - least)) none trace
            goOn trace.position trace
        | none, _ =>
          run text fuel (.round greed least most body :: after) (⟨0, none⟩ :: rounds) position
            (trace.moveTo position)
        | some one, _ =>
          if text.size < position + least then (false, trace)
          else
            let count := one.countFrom text (most.getD text.size) position
            let scanned := trace.moveTo (if one.isTriedSingly then position + count else position)
            if count < least then (false, scanned)
            else
              let attempt (position : Nat) (trace : Trace) : Attempt :=
                goOn position (trace.moveTo position)
              match greed with
              | .possessive => goOn (position + count) scanned
              | .greedy =>
                let ways := downFrom (position + least) (count - least)
                let ways := match upcoming? after with
                  | some (.literal c false .exact) =>
                    ways.filter fun p => (Node.literal c false .exact).acceptsAt text p
                  | _ => ways
                tryAll attempt undo ways scanned
              | .lazy =>
                let ways := (downFrom (position + least) (count - least)).reverse
                match tryAll attempt undo ways scanned with
                | (true, trace) => (true, trace)
                | (false, trace) =>
                  let stop := position + count
                  let passed := one.isTriedSingly && one.acceptsAt text stop
                  (false, trace.moveTo (if passed then stop + 1 else stop))
      | single =>
        if single.acceptsAt text position then goOn (position + 1) trace else (false, trace)

mutual

/-- How many frames a node can make that are worked off one after the other in a text of a size. -/
def Node.weight (size : Nat) : Node → Nat
  | .group _ body => weightAll size body + 3
  | .branch alternatives => weightLists size alternatives + 3
  | .repetition _ least _ body => (weightAll size body + 3) * (least + size + 3)
  | .atomic body => weightAll size body + 3
  | .condition _ onMatch otherwise => weightAll size onMatch + weightAll size otherwise + 3
  | .look _ _ body => weightAll size body + 3
  | _ => 2
termination_by structural n => n

/-- How many frames nodes can make. -/
def weightAll (size : Nat) : List Node → Nat
  | [] => 1
  | n :: rest => Node.weight size n + weightAll size rest
termination_by structural ns => ns

/-- How many frames lists of nodes can make. -/
def weightLists (size : Nat) : List (List Node) → Nat
  | [] => 1
  | ns :: rest => weightAll size ns + weightLists size rest
termination_by structural ls => ls

end

end TreeScript.Pattern
